import NovaOs.Firewall.Meaning
import Mathlib.Data.List.InsertIdx

/-! Administration of the firewall, and what is left of it once the firewall is locked. -/

namespace NovaOs.Fw

inductive AdminError where
  | locked
  | badIndex
  | full
  | parse (why : ParseError)
  deriving DecidableEq, Repr

/-- A single rule as text. -/
def parseRule (text : List UInt8) : Except ParseError Rule :=
  match tokens text with
  | word :: words =>
    if word == ascii "rule" then parseRuleTokens 1 words else .error (.syntaxError 1)
  | [] => .error (.syntaxError 1)

/-- A made-up packet that is put to the filter, and whether it is to be remembered. -/
structure Probe where
  dir : UInt32 := 0
  proto : UInt32 := 0
  src : UInt32 := 0
  dst : UInt32 := 0
  sport : UInt32 := 0
  dport : UInt32 := 0
  flags : UInt32 := 0
  icmpType : UInt32 := 0
  icmpCode : UInt32 := 0
  id : UInt32 := 0
  frag : UInt32 := 0
  commit : UInt32 := 0
  innerProto : UInt32 := 0
  innerSrc : UInt32 := 0
  innerDst : UInt32 := 0
  innerSport : UInt32 := 0
  innerDport : UInt32 := 0
  len : UInt32 := 0

/-- The packet a probe describes. -/
def Probe.pkt (probe : Probe) : Pkt :=
  let proto := probe.proto.toUInt8
  let bad : Bad := if probe.frag = 0 then .none else .fragment
  { dir := if probe.dir = 0 then .inbound else .outbound
    proto := proto
    src := probe.src
    dst := probe.dst
    sport := probe.sport.toUInt16
    dport := probe.dport.toUInt16
    flags := probe.flags.toUInt8 &&& 0x3F
    icmpType := probe.icmpType.toUInt8
    icmpCode := probe.icmpCode.toUInt8
    id := probe.id.toUInt16
    len := probe.len.toUInt16
    bad :=
      if proto ≠ protoTcp ∧ proto ≠ protoUdp ∧ proto ≠ protoIcmp ∧ bad = .none then .unsupported
      else bad
    inner :=
      if probe.innerProto = 0 then none
      else some
        { proto := probe.innerProto.toUInt8, src := probe.innerSrc, dst := probe.innerDst,
          sport := probe.innerSport.toUInt16, dport := probe.innerDport.toUInt16 } }

/-- The administrator's operations (`fw_sys_ctl`, and the configuration read at boot). -/
inductive Op where
  | loadConfig (text : List UInt8)
  | addRule (text : List UInt8) (pos : UInt32)
  | delRule (idx : UInt32)
  | flushRules
  | setPolicy (dir : Dir) (accept : Bool)
  | setEnabled (on : Bool)
  | lock
  | flushConns
  | probe (probe : Probe)

namespace Firewall

variable (fw : Firewall)

/-- Replaces rules and policies; the tracked flows are kept. -/
def applyConfig (text : List UInt8) : Except AdminError Firewall :=
  if fw.locked then .error .locked
  else
    match parseConfig text with
    | .error why => .error (.parse why)
    | .ok c => .ok (fw.loadConfigUnchecked c)

def addRule (pos : Nat) (rule : Rule) : Except AdminError Firewall :=
  if fw.locked then .error .locked
  else if fw.rules.length ≥ maxRules then .error .full
  else if pos > fw.rules.length then .error .badIndex
  else
    .ok { fw with
      rules := fw.rules.insertIdx pos rule
      hits := fw.hits.insertIdx pos 0
      hitBytes := fw.hitBytes.insertIdx pos 0 }

def addRuleText (pos : Nat) (text : List UInt8) : Except AdminError Firewall :=
  if fw.locked then .error .locked
  else
    match parseRule text with
    | .error why => .error (.parse why)
    | .ok rule => fw.addRule pos rule

def delRule (idx : Nat) : Except AdminError Firewall :=
  if fw.locked then .error .locked
  else if idx ≥ fw.rules.length then .error .badIndex
  else
    .ok { fw with
      rules := fw.rules.eraseIdx idx
      hits := fw.hits.eraseIdx idx
      hitBytes := fw.hitBytes.eraseIdx idx }

def flushRules : Except AdminError Firewall :=
  if fw.locked then .error .locked else .ok { fw with rules := [], hits := [], hitBytes := [] }

def setPolicy (dir : Dir) (accept : Bool) : Except AdminError Firewall :=
  if fw.locked then .error .locked
  else
    match dir with
    | .inbound => .ok { fw with policyIn := accept }
    | .outbound => .ok { fw with policyOut := accept }

def setEnabled (on : Bool) : Except AdminError Firewall :=
  if fw.locked then .error .locked else .ok { fw with disabled := !on }

/-- Forgets every tracked flow and expectation; the lock does not stand in the way. -/
def flushConns : Firewall :=
  { fw with conns := fun _ => {}, expects := fun _ => {} }

/-- One operation, at a clock value. -/
def admin (now : UInt32) : Op → Except AdminError Firewall
  | .loadConfig text => fw.applyConfig text
  | .addRule text pos =>
    -- The highest position means after the last rule.
    fw.addRuleText (if pos = 0xFFFFFFFF then fw.rules.length else pos.toNat) text
  | .delRule idx => fw.delRule idx.toNat
  | .flushRules => fw.flushRules
  | .setPolicy dir accept => fw.setPolicy dir accept
  | .setEnabled on => fw.setEnabled on
  | .lock => .ok { fw with locked := true }
  | .flushConns => .ok fw.flushConns
  | .probe probe => .ok (fw.filter probe.pkt now (probe.commit ≠ 0)).2

end Firewall

/-- A packet at the network card, or an operation of the administrator. -/
inductive Event where
  | packet (p : Pkt)
  | admin (op : Op)

namespace Firewall

/-- What happens at a clock value; an operation that fails changes nothing. -/
def happen (fw : Firewall) (now : UInt32) : Event → Firewall
  | .packet p => (fw.filter p now true).2
  | .admin op =>
    match fw.admin now op with
    | .ok fw' => fw'
    | .error _ => fw

/-- Which of the packets of a trace get through. -/
def accepts (fw : Firewall) : List (Event × UInt32) → List Bool
  | [] => []
  | (.packet p, now) :: rest =>
    (fw.filter p now true).1.accept :: accepts (fw.happen now (.packet p)) rest
  | (.admin op, now) :: rest => accepts (fw.happen now (.admin op)) rest

end Firewall

/-- Comes from the network. -/
def Event.isPacket : Event → Bool
  | .packet _ => true
  | .admin _ => false

namespace Firewall

variable {fw : Firewall} {p : Pkt} {now : UInt32}

/-- The firewall without its counters. -/
def bare (fw : Firewall) : Firewall :=
  { fw with hits := [], hitBytes := [], stats := {}, logSeq := 0 }

theorem hit_bare {v : Verdict} : (fw.hit v p).bare = fw.bare := by
  unfold hit
  split <;> rfl

theorem wantLog_bare {wanted : Bool} : (fw.wantLog wanted).2.bare = fw.bare := by
  unfold wantLog
  split
  · rfl
  · dsimp only
    split <;> rfl

theorem commit_bare (fw : Firewall) (p : Pkt) (cls : Cls) (now : UInt32) :
    (fw.commit p cls now).2.bare = (fw.bare.commit p cls now).2.bare := by
  cases cls with
  | invalid why | existing idx side next finFrom | related idx | replace idx => rfl
  | relatedNew ex =>
    -- Where the flow goes depends on the flows alone, in either firewall.
    have place : ({ fw.bare with
        expects := Function.update fw.bare.expects ex { fw.bare.expects ex with used := false }
        stats := { fw.bare.stats with related := fw.bare.stats.related + 1 } } : Firewall).allocSlot
          now = fw.allocSlot now := rfl
    have same : ({ fw with
        expects := Function.update fw.expects ex { fw.expects ex with used := false }
        stats := { fw.stats with related := fw.stats.related + 1 } } : Firewall).allocSlot now
          = fw.allocSlot now := rfl
    simp only [commit, place, same]
    cases fw.allocSlot now <;> rfl
  | new =>
    have place : fw.bare.allocSlot now = fw.allocSlot now := rfl
    simp only [commit, place]
    cases fw.allocSlot now with
    | none => rfl
    | some i =>
      dsimp only
      split <;> rfl

/-- The counters do not bear on what gets through, nor on what is remembered of it. -/
theorem filter_bare (fw : Firewall) (p : Pkt) (now : UInt32) :
    (fw.filter p now true).1.accept = (fw.bare.filter p now true).1.accept ∧
      (fw.filter p now true).2.bare = (fw.bare.filter p now true).2.bare := by
  have verdict : fw.bare.decidePkt p now = fw.decidePkt p now := rfl
  have disabled : fw.bare.disabled = fw.disabled := rfl
  simp only [filter, verdict, disabled]
  obtain ⟨cls, v, log⟩ := fw.decidePkt p now
  cases fw.disabled with
  | true => exact ⟨rfl, rfl⟩
  | false => ?_
  cases accepted : v.accept with
  | false =>
    simp only [Bool.not_true, Bool.false_eq_true, if_false, wantLog_bare, hit_bare]
    exact ⟨trivial, rfl⟩
  | true =>
    simp only [Bool.not_true, Bool.false_eq_true, if_false, if_true, wantLog_bare, hit_bare]
    exact ⟨trivial, fw.commit_bare p cls now⟩

/-- A packet that is dropped leaves nothing but a count. -/
theorem filter_dropped (dropped : (fw.filter p now true).1.accept = false) :
    (fw.filter p now true).2.bare = fw.bare := by
  simp only [filter] at dropped ⊢
  generalize fw.decidePkt p now = decision at dropped ⊢
  obtain ⟨cls, v, log⟩ := decision
  cases disabled : fw.disabled with
  | true => simp [disabled] at dropped
  | false => ?_
  cases accepted : v.accept with
  | true => simp [disabled, accepted] at dropped
  | false =>
    simp only [Bool.not_true, Bool.false_eq_true, if_false, wantLog_bare, hit_bare]
    rfl

/-- An operation that can do nothing under the lock: all but forgetting the tracked flows and
remembering a made-up packet that gets through. -/
def Harmless (fw : Firewall) (now : UInt32) : Event → Prop
  | .admin .flushConns => False
  | .admin (.probe probe) =>
    probe.commit = 0 ∨ (fw.filter probe.pkt now true).1.accept = false
  | _ => True

def HarmlessRun (fw : Firewall) : List (Event × UInt32) → Prop
  | [] => True
  | (event, now) :: rest => fw.Harmless now event ∧ HarmlessRun (fw.happen now event) rest

theorem admin_locked {op : Op} (locked : fw.locked = true)
    (harmless : fw.Harmless now (.admin op)) : (fw.happen now (.admin op)).bare = fw.bare := by
  cases op with
  | loadConfig text => simp [happen, admin, applyConfig, locked]
  | addRule text pos => simp [happen, admin, addRuleText, locked]
  | delRule idx => simp [happen, admin, delRule, locked]
  | flushRules => simp [happen, admin, flushRules, locked]
  | setPolicy dir accept => simp [happen, admin, setPolicy, locked]
  | setEnabled on => simp [happen, admin, setEnabled, locked]
  | lock => simp [happen, admin, bare, locked]
  | flushConns => cases harmless
  | probe probe => ?_
  by_cases looks : probe.commit = 0
  · -- A probe that does not commit is a dry run.
    have dry : (fw.filter probe.pkt now false).2 = fw := by
      simp only [filter]
      split <;> rfl
    simp [happen, admin, looks, dry]
  · have dropped := harmless.resolve_left looks
    simp [happen, admin, looks, filter_dropped dropped]

/-- No packet takes the lock off. -/
theorem locked_packet (locked : fw.locked = true) (p : Pkt) (now : UInt32) :
    (fw.happen now (.packet p)).locked = true := by
  -- The counters aside, the lock is that of the firewall the packet was remembered in.
  have lockOf : ∀ one : Firewall, one.bare.locked = one.locked := fun _ => rfl
  rw [← locked, ← lockOf (fw.happen now (.packet p))]
  simp only [happen, filter]
  generalize fw.decidePkt p now = decision
  obtain ⟨cls, v, log⟩ := decision
  cases fw.disabled with
  | true => rfl
  | false => ?_
  cases v.accept with
  | false =>
    simp only [Bool.not_true, Bool.false_eq_true, if_false, wantLog_bare, hit_bare]
    rfl
  | true =>
    simp only [Bool.not_true, Bool.false_eq_true, if_false, if_true, wantLog_bare, hit_bare]
    exact (fw.commit_settings p cls now).2.2.2.2

/-- Two firewalls that differ in their counters at most let the same packets through, also if in
one of them the administrator tries what can do nothing. -/
theorem accepts_of_bare {other : Firewall} (same : fw.bare = other.bare) (locked : fw.locked = true)
    {trace : List (Event × UInt32)} (harmless : fw.HarmlessRun trace) :
    fw.accepts trace = other.accepts (trace.filter (·.1.isPacket)) := by
  induction trace generalizing fw other with
  | nil => rfl
  | cons entry rest ih =>
    obtain ⟨event, now⟩ := entry
    obtain ⟨here, later⟩ := harmless
    cases event with
    | admin op =>
      have unmoved := admin_locked locked here
      have stays : (fw.happen now (.admin op)).locked = true :=
        (congrArg Firewall.locked unmoved).trans locked
      exact ih (unmoved.trans same) stays later
    | packet p => ?_
    obtain ⟨verdict, moved⟩ := fw.filter_bare p now
    obtain ⟨otherVerdict, otherMoved⟩ := other.filter_bare p now
    rw [same] at verdict moved
    have rest := ih (moved.trans otherMoved.symm) (locked_packet locked p now) later
    simp only [accepts, List.filter_cons, Event.isPacket, if_true]
    rw [verdict, ← otherVerdict]
    exact congrArg _ rest

/-- Once locked, a firewall lets exactly those packets through that it would have let through had
nothing been tried, as long as nobody flushes its flows or has it remember a made-up packet. -/
theorem lock_final (fw : Firewall) (locked : fw.locked = true) (trace : List (Event × UInt32))
    (harmless : fw.HarmlessRun trace) :
    fw.accepts trace = fw.accepts (trace.filter (·.1.isPacket)) :=
  accepts_of_bare rfl locked harmless

end Firewall

/-- A segment of a connection of ours to a web server. -/
def sampleSegment (dir : Dir) (flags : UInt8) : Pkt :=
  match dir with
  | .outbound =>
    { dir := .outbound, proto := protoTcp, src := 0x0A00020F, dst := 0x01020304,
      sport := 40000, dport := 80, flags := flags }
  | .inbound =>
    { dir := .inbound, proto := protoTcp, src := 0x01020304, dst := 0x0A00020F,
      sport := 80, dport := 40000, flags := flags }

/-- The same connection, opened by a probe that is to be remembered. -/
def sampleProbe : Probe :=
  { dir := 1, proto := 6, src := 0x0A00020F, dst := 0x01020304, sport := 40000, dport := 80,
    flags := 0x02, commit := 1 }

theorem lock_final_policy :
    let locked := Firewall.init.happen 0 (.admin .lock)
    let trace : List (Event × UInt32) :=
      [(.packet (sampleSegment .outbound tcpSyn), 1), (.admin (.setPolicy .inbound true), 2),
        (.admin (.setEnabled false), 2), (.packet (sampleSegment .inbound (tcpSyn ||| tcpAck)), 3),
        (.packet (sampleSegment .inbound tcpSyn), 4)]
    locked.accepts trace = [true, true, false] ∧
      locked.accepts trace = locked.accepts (trace.filter (·.1.isPacket)) := by
  refine ⟨by decide +kernel, Firewall.lock_final _ (by decide) _ ?_⟩
  exact ⟨trivial, trivial, trivial, trivial, trivial, trivial⟩

/-- A locked firewall with the built-in configuration lets in what it would have dropped. A probe
opens a connection that nobody asked for. And once the flows are flushed we may open a connection
again under a tuple that was in use, so that the other side may as well. -/
theorem lock_circumvented :
    let locked := Firewall.init.happen 0 (.admin .lock)
    let answer : Event × UInt32 := (.packet (sampleSegment .inbound (tcpSyn ||| tcpAck)), 2)
    let opened : List (Event × UInt32) :=
      [(.packet (sampleSegment .outbound tcpSyn), 1), answer,
        (.packet (sampleSegment .outbound tcpAck), 3)]
    let again : List (Event × UInt32) :=
      [(.packet (sampleSegment .outbound tcpSyn), 5), (.packet (sampleSegment .inbound tcpSyn), 6)]
    (locked.accepts [answer] = [false] ∧
      locked.accepts [(.admin (.probe sampleProbe), 1), answer] = [true]) ∧
    locked.accepts (opened ++ again) = [true, true, true, false, false] ∧
    locked.accepts (opened ++ (.admin .flushConns, 4) :: again)
      = [true, true, true, true, true] := by
  decide +kernel

end NovaOs.Fw
