import NovaOs.Firewall.Conntrack

/-! The firewall itself: how a packet is classified, judged and remembered. -/

namespace NovaOs.Fw

/-- Why a verdict was reached. -/
inductive Reason where
  | rule
  | policy
  | invalid
  | fragment
  | unsupported
  | malformed
  | tableFull
  | halfOpen
  | disabled
  deriving DecidableEq, Repr

structure Stats where
  acceptedIn : UInt32 := 0
  acceptedOut : UInt32 := 0
  droppedIn : UInt32 := 0
  droppedOut : UInt32 := 0
  invalid : UInt32 := 0
  fragments : UInt32 := 0
  tableFull : UInt32 := 0
  halfOpen : UInt32 := 0
  newConns : UInt32 := 0
  related : UInt32 := 0
  unsupported : UInt32 := 0
  malformed : UInt32 := 0
  logged : UInt32 := 0
  deriving DecidableEq, Repr

structure Verdict where
  accept : Bool := false
  -- The packet's state as the rules saw it.
  state : UInt8 := stInvalid
  -- The rule that decided, if one did.
  rule : Option Nat := none
  reason : Reason := .invalid
  detail : Inv := .none
  -- The tracked flow's state after this packet.
  ctState : CtState := .none
  log : Bool := false
  deriving DecidableEq, Repr

/-- A flow that is remembered and whose time has not run out. -/
def Conn.live (c : Conn) (now : UInt32) : Bool :=
  c.used && !expired c.expires now

/-- The whole firewall. All defaults is a firewall that drops everything. -/
structure Firewall where
  rules : List Rule := []
  hits : List UInt32 := []
  hitBytes : List UInt32 := []
  policyIn : Bool := false
  policyOut : Bool := false
  disabled : Bool := false
  locked : Bool := false
  conns : Fin maxConns → Conn := fun _ => {}
  expects : Fin maxExpect → Expect := fun _ => {}
  stats : Stats := {}
  logSeq : UInt32 := 0

namespace Firewall

variable (fw : Firewall)

/-- Takes over a configuration; the hit counters start again. -/
def loadConfigUnchecked (c : Config) : Firewall :=
  { fw with
    rules := c.rules
    hits := c.rules.map fun _ => 0
    hitBytes := c.rules.map fun _ => 0
    policyIn := c.policyIn
    policyOut := c.policyOut }

/-- Boot: the built-in configuration, no tracked flows, counters at zero, unlocked. -/
def init : Firewall :=
  match parseConfig baseline with
  | .ok c => loadConfigUnchecked {} c
  | .error _ => {}

/-- The first live flow a key belongs to, on the side asked for if one is. -/
def find (k : Key) (now : UInt32) (wantSide : Option (Fin 2)) : Option (Fin maxConns × Fin 2) := do
  let fits (c : Conn) :=
    c.live now && (sideOf c k).any fun s => wantSide.all (· == s)
  let idx ← Table.first? fits fw.conns
  let side ← sideOf (fw.conns idx) k
  return (idx, side)

def hasFreeSlot (now : UInt32) : Bool :=
  (Table.first? (fun c => !c.live now) fw.conns).isSome

/-- Live TCP flows started from outside that have not completed their handshake. -/
def halfOpenInbound (now : UInt32) : Nat :=
  Table.count (fun c => c.live now && c.proto == protoTcp && c.origDir == .inbound
    && (c.state == .synSent || c.state == .synRecv)) fw.conns

/-- An expectation that an inbound datagram meets. -/
def findExpect (p : Pkt) (now : UInt32) : Option (Fin maxExpect) :=
  if p.dir != .inbound || p.proto != protoUdp then none
  else
    Table.first? (fun e => e.used && !expired e.expires now
      && e.remoteIp == p.src && e.localIp == p.dst && e.localPort == p.dport) fw.expects

/-- A TCP segment belongs to a flow and is possible there, or starts one. -/
def classifyTcp (p : Pkt) (now : UInt32) : Cls :=
  if p.sport == 0 || p.dport == 0 then .invalid .port0
  else
    match tcpClass p.flags with
    | none => .invalid .flags
    | some fc =>
      match fw.find (keyOf p) now none with
      | some (idx, side) =>
        let c := fw.conns idx
        if fc == .syn && (c.state == .timeWait || c.state == .close) then .replace idx
        else
          match tcpNext c.state side fc c.finFrom with
          | some (next, finFrom) => .existing idx side next finFrom
          | none => .invalid .state
      | none => if fc == .syn then .new else .invalid .noConn

/-- A datagram belongs to a flow, was expected, or starts a flow. -/
def classifyUdp (p : Pkt) (now : UInt32) : Cls :=
  if p.dport == 0 then .invalid .port0
  else
    match fw.find (keyOf p) now none with
    | some (idx, side) => .existing idx side .udpReplied 0
    | none =>
      match fw.findExpect p now with
      | some ex => .relatedNew ex
      | none => .new

/-- An echo request, the reply to one, or an error about a tracked flow. -/
def classifyIcmp (p : Pkt) (now : UInt32) : Cls :=
  if p.icmpCode != 0 && (p.icmpType == 0 || p.icmpType == 8) then .invalid .icmp
  else if p.icmpType == 8 then
    match fw.find (keyOf p) now (some 0) with
    | some (idx, side) => .existing idx side .icmpEcho 0
    | none => .new
  else if p.icmpType == 0 then
    match fw.find (keyOf p) now (some 1) with
    | some (idx, side) =>
      if (fw.conns idx).pending > 0 then .existing idx side .icmpEcho 0 else .invalid .noConn
    | none => .invalid .noConn
  else if isIcmpError p.icmpType then
    match p.inner with
    | none => .invalid .related
    | some inner =>
      match fw.find inner.key now none with
      | some (idx, _) => .related idx
      | none => .invalid .related
  else .invalid .icmp

def classify (p : Pkt) (now : UInt32) : Cls :=
  if p.proto == protoTcp then fw.classifyTcp p now
  else if p.proto == protoUdp then fw.classifyUdp p now
  else if p.proto == protoIcmp then fw.classifyIcmp p now
  else .invalid .none

/-- The state the rules see. -/
def stateOf : Cls → UInt8
  | .invalid _ => stInvalid
  | .new | .replace _ => stNew
  | .related _ | .relatedNew _ => stRelated
  | .existing idx side _ _ =>
    if side == 1 || (fw.conns idx).replied then stEstablished else stNew

/-- The first slot that holds no live flow. -/
def allocSlot (now : UInt32) : Option (Fin maxConns) :=
  Table.first? (fun c => !c.live now) fw.conns

/-- The entry a flow starts with. -/
def startedConn (p : Pkt) (now : UInt32) (related : Bool) : Conn :=
  let k := keyOf p
  let c : Conn :=
    { used := true
      proto := p.proto
      origDir := p.dir
      aIp := k.src
      aPort := k.sport
      bIp := k.dst
      bPort := k.dport
      created := now
      -- An expected flow counts as answered from the start.
      replied := related
      state :=
        if related then .udpReplied
        else if p.proto == protoTcp then .synSent
        else if p.proto == protoUdp then .udpUnreplied
        else .icmpEcho
      pending := if p.proto == protoIcmp then 1 else 0
      pkts := Function.update (fun _ => 0) 0 1
      bytes := Function.update (fun _ => 0) 0 p.len.toUInt32 }
  { c with expires := now + connTimeout c }

/-- Starts a flow in a slot. -/
def startConn (i : Fin maxConns) (p : Pkt) (now : UInt32) (related : Bool) : Firewall :=
  { fw with conns := Function.update fw.conns i (startedConn p now related) }

/-- Expects a datagram from a host; when the table is full the first slot goes. -/
def addExpect (remoteIp localIp : UInt32) (localPort : UInt16) (now : UInt32) : Firewall :=
  let same := Table.first? (fun e => e.used && e.remoteIp == remoteIp && e.localIp == localIp
    && e.localPort == localPort) fw.expects
  let free := Table.first? (fun e => !e.used || expired e.expires now) fw.expects
  let slot := (same.or free).getD ⟨0, by decide⟩
  { fw with
    expects := Function.update fw.expects slot
      { used := true, remoteIp := remoteIp, localIp := localIp, localPort := localPort,
        expires := now + expectTimeout } }

/-- What a packet of a tracked flow does to its entry. -/
def advancedConn (c : Conn) (p : Pkt) (side : Fin 2) (next : CtState) (finFrom : Fin 2)
    (now : UInt32) : Conn :=
  let c :=
    { c with
      pkts := Function.update c.pkts side (c.pkts side + 1)
      bytes := Function.update c.bytes side (c.bytes side + p.len.toUInt32) }
  let c :=
    if p.proto == protoTcp then
      { c with state := next, finFrom := finFrom, replied := side == 1 || c.replied }
    else if p.proto == protoUdp then
      if side == 1 then { c with replied := true, state := .udpReplied } else c
    -- The counter of open echo requests neither overflows nor goes below zero.
    else if side == 0 then { c with pending := if c.pending == 255 then 255 else c.pending + 1 }
    else { c with pending := if c.pending == 0 then 0 else c.pending - 1, replied := true }
  { c with expires := now + connTimeout c }

/-- Remembers an accepted packet. -/
def commit (p : Pkt) (cls : Cls) (now : UInt32) : CtState × Firewall :=
  match cls with
  | .existing idx side next finFrom =>
    let c := advancedConn (fw.conns idx) p side next finFrom now
    (c.state, { fw with conns := Function.update fw.conns idx c })
  | .related idx =>
    ((fw.conns idx).state, { fw with stats := { fw.stats with related := fw.stats.related + 1 } })
  | .relatedNew ex =>
    let fw := { fw with
      expects := Function.update fw.expects ex { fw.expects ex with used := false }
      stats := { fw.stats with related := fw.stats.related + 1 } }
    match fw.allocSlot now with
    | some i =>
      let fw := fw.startConn i p now true
      ((fw.conns i).state,
        { fw with stats := { fw.stats with newConns := fw.stats.newConns + 1 } })
    | none => (.none, fw)
  | .new =>
    match fw.allocSlot now with
    | some i =>
      let fw := fw.startConn i p now false
      let fw := { fw with stats := { fw.stats with newConns := fw.stats.newConns + 1 } }
      let fw :=
        if p.proto == protoUdp && p.dir == .outbound && p.dport == tftpPort then
          fw.addExpect p.dst p.src p.sport now
        else fw
      ((fw.conns i).state, fw)
    | none => (.none, fw)
  | .replace idx =>
    let fw := fw.startConn idx p now false
    ((fw.conns idx).state,
      { fw with stats := { fw.stats with newConns := fw.stats.newConns + 1 } })
  | .invalid _ => (.none, fw)

/-- Is a log line due? The first few are, then one in 256. -/
def wantLog (wanted : Bool) : Bool × Firewall :=
  if !wanted then (false, fw)
  else
    let n := fw.logSeq
    let fw := { fw with logSeq := n + 1 }
    if n < 32 || n % 256 == 0 then
      (true, { fw with stats := { fw.stats with logged := fw.stats.logged + 1 } })
    else (false, fw)

/-- The verdict on a packet, before it is remembered: who decides it, and how. -/
def judge (p : Pkt) (cls : Cls) (now : UInt32) : Verdict × Bool :=
  let state := fw.stateOf cls
  -- The first rule that matches decides, and the direction's policy if none does.
  let (v, log) : Verdict × Bool :=
    match fw.rules.findIdx? (·.matchesPkt p state) with
    | some i =>
      let rule := fw.rules.getD i {}
      ({ state := state, accept := rule.accept, rule := some i, reason := .rule }, rule.log)
    | none =>
      let accept := if p.dir == .inbound then fw.policyIn else fw.policyOut
      ({ state := state, accept := accept, reason := .policy }, false)
  if v.accept then
    -- A new flow needs room, and half-open ones from outside must not use the table up.
    let needsSlot := match cls with
      | .new | .relatedNew _ => true
      | _ => false
    if needsSlot && !fw.hasFreeSlot now then
      ({ v with accept := false, reason := .tableFull }, true)
    else if cls == .new && p.proto == protoTcp && p.dir == .inbound
        && fw.halfOpenInbound now ≥ halfOpenMax then
      ({ v with accept := false, reason := .halfOpen }, true)
    else (v, log)
  else (v, log)

/-- The class of a packet, the verdict on it, and whether it should be logged. -/
def decidePkt (p : Pkt) (now : UInt32) : Cls × Verdict × Bool :=
  match p.bad with
  | .none =>
    match fw.classify p now with
    | .invalid why => (.invalid why, { detail := why }, true)
    | cls => (cls, fw.judge p cls now)
  | .fragment => (.invalid .none, { reason := .fragment }, true)
  | .unsupported => (.invalid .none, { reason := .unsupported }, true)
  | .malformed => (.invalid .none, { reason := .malformed }, true)

/-- The state a packet's flow would be in, without touching it. -/
def foretold (p : Pkt) : Cls → CtState
  | .existing _ _ next _ => next
  | .new | .replace _ =>
    if p.proto == protoTcp then .synSent
    else if p.proto == protoUdp then .udpUnreplied
    else .icmpEcho
  | _ => .none

/-- Counts a packet by what became of it and why. -/
def Stats.count (s : Stats) (v : Verdict) (inbound : Bool) : Stats :=
  let s := match v.accept, inbound with
    | true, true => { s with acceptedIn := s.acceptedIn + 1 }
    | true, false => { s with acceptedOut := s.acceptedOut + 1 }
    | false, true => { s with droppedIn := s.droppedIn + 1 }
    | false, false => { s with droppedOut := s.droppedOut + 1 }
  match v.reason with
  | .invalid => { s with invalid := s.invalid + 1 }
  | .fragment => { s with fragments := s.fragments + 1 }
  | .unsupported => { s with unsupported := s.unsupported + 1 }
  | .malformed => { s with malformed := s.malformed + 1 }
  | .tableFull => { s with tableFull := s.tableFull + 1 }
  | .halfOpen => { s with halfOpen := s.halfOpen + 1 }
  | _ => s

/-- Counts a packet for the rule that decided it. -/
def hit (v : Verdict) (p : Pkt) : Firewall :=
  match v.rule with
  | some i =>
    { fw with
      hits := fw.hits.modify i (· + 1)
      hitBytes := fw.hitBytes.modify i (· + p.len.toUInt32) }
  | none => fw

/-- Decides one packet; only an accepted one moves a flow, and a dry run moves nothing. -/
def filter (p : Pkt) (now : UInt32) (commit : Bool) : Verdict × Firewall :=
  if fw.disabled then ({ accept := true, reason := .disabled }, fw)
  else
    let (cls, v, log) := fw.decidePkt p now
    if !commit then
      ({ v with ctState := if v.accept then foretold p cls else .none }, fw)
    else
      let (ctState, fw) := if v.accept then fw.commit p cls now else (.none, fw)
      let v := { v with ctState := ctState }
      let fw := { fw with stats := Stats.count fw.stats v (p.dir == Dir.inbound) }
      let (log, fw) := (fw.hit v p).wantLog log
      ({ v with log := log }, fw)

end Firewall

end NovaOs.Fw
