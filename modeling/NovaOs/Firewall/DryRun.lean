import NovaOs.Firewall.Meaning

/-! What a dry run says of a packet, and what happens when the packet is then filtered. -/

namespace NovaOs.Fw

namespace Firewall

variable {fw : Firewall} {p : Pkt} {now : UInt32} {cls : Cls}

/-- Does a dry run name the state in which a packet of this class leaves its flow? A datagram is
reported as if it were the answer, and a packet related to a flow as if there were none. -/
def foresees (fw : Firewall) (p : Pkt) : Cls → Bool
  | .existing idx side _ _ =>
    p.proto == protoTcp
      || p.proto == protoUdp && (side.val == 1 || (fw.conns idx).state == .udpReplied)
      || p.proto == protoIcmp && (fw.conns idx).state == .icmpEcho
  | .related idx => (fw.conns idx).state == .none
  | .relatedNew _ => false
  | .invalid _ | .new | .replace _ => true

/-- The state a flow of the packet's own starts in is the one foretold. -/
theorem startedConn_state : (startedConn p now false).state = foretold p .new := rfl

/-- The check before the verdict and the search after it ask the same of a slot. -/
theorem judge_allocSlot (starts : cls = .new ∨ ∃ ex, cls = .relatedNew ex)
    (accepted : (fw.judge p cls now).1.accept = true) : ∃ i, fw.allocSlot now = some i :=
  Option.isSome_iff_exists.mp ((judge_room accepted).1 starts)

/-- The state of a flow after one more packet is the one foretold, or it is not foreseen. -/
theorem advancedConn_foretold {idx : Fin maxConns} {side finFrom : Fin 2} {next : CtState}
    (finds : fw.Finds p now (.existing idx side next finFrom)) :
    next = (advancedConn (fw.conns idx) p side next finFrom now).state ↔
      fw.foresees p (.existing idx side next finFrom) = true := by
  -- One case for each protocol: only TCP moves to the state that was looked up.
  rw [eq_comm]
  obtain ⟨_, ⟨tcp, _⟩ | ⟨udp, rfl⟩ | ⟨icmp, rfl, _⟩⟩ := finds
  · simp [advancedConn, foresees, tcp]
  · by_cases answers : side = 1
    · simp [advancedConn, foresees, udp, answers, protoUdp, protoTcp]
    · have asks : side = 0 := by omega
      simp [advancedConn, foresees, udp, asks, protoUdp, protoTcp, protoIcmp]
  · by_cases answers : side = 1
    · simp [advancedConn, foresees, icmp, answers, protoIcmp, protoUdp, protoTcp]
    · have asks : side = 0 := by omega
      simp [advancedConn, foresees, icmp, asks, protoIcmp, protoUdp, protoTcp]

/-- What is foretold of an accepted packet is what remembering it comes to, where it is foreseen. -/
theorem commit_foretold (accepted : (fw.judge p (fw.classify p now) now).1.accept = true) :
    foretold p (fw.classify p now) = (fw.commit p (fw.classify p now) now).1 ↔
      fw.foresees p (fw.classify p now) = true := by
  have finds := fw.classify_finds p now
  cases cls : fw.classify p now with
  | invalid why => exact ⟨fun _ => rfl, fun _ => rfl⟩
  | existing idx side next finFrom =>
    rw [cls] at finds
    exact advancedConn_foretold finds
  | related idx =>
    simp only [foretold, commit, foresees, beq_iff_eq]
    exact eq_comm
  | relatedNew ex =>
    rw [cls] at accepted
    obtain ⟨i, found⟩ := judge_allocSlot (.inr ⟨ex, rfl⟩) accepted
    have moved : (fw.commit p (.relatedNew ex) now).1 = .udpReplied := by
      simp only [allocSlot] at found
      simp only [commit, allocSlot, found, startConn, Function.update_self]
      rfl
    rw [moved]
    exact ⟨nofun, nofun⟩
  | new =>
    rw [cls] at accepted
    obtain ⟨i, found⟩ := judge_allocSlot (.inl rfl) accepted
    have moved : (fw.commit p .new now).1 = foretold p .new := by
      simp only [commit, found, startConn]
      split
      · simp only [addExpect, Function.update_self, startedConn_state]
      · simp only [Function.update_self, startedConn_state]
    exact ⟨fun _ => rfl, fun _ => moved.symm⟩
  | replace idx =>
    have moved : (fw.commit p (.replace idx) now).1 = foretold p (.replace idx) := by
      simp only [commit, startConn, Function.update_self, startedConn_state]
      rfl
    exact ⟨fun _ => rfl, fun _ => moved.symm⟩

/-- The flow's state is foretold as it comes: the packet is dropped, or of a class where it is. -/
def Foreseen (fw : Firewall) (p : Pkt) (now : UInt32) : Prop :=
  fw.disabled = false → (fw.decidePkt p now).2.1.accept = true →
    fw.foresees p (fw.classify p now) = true

/-- A dry run changes nothing and reaches the verdict that the real run does, by the same rule and
for the same reason; the state it names for the flow is right exactly where it is foreseen. And a
packet that is dropped leaves the tables alone. -/
theorem dryRun_foretells (fw : Firewall) (p : Pkt) (now : UInt32) :
    let dry := fw.filter p now false
    let real := fw.filter p now true
    dry.2 = fw ∧
    dry.1.accept = real.1.accept ∧ dry.1.rule = real.1.rule ∧ dry.1.state = real.1.state ∧
    dry.1.reason = real.1.reason ∧ dry.1.detail = real.1.detail ∧
    (dry.1.ctState = real.1.ctState ↔ fw.Foreseen p now) ∧
    (real.1.accept = false → real.2.conns = fw.conns ∧ real.2.expects = fw.expects) := by
  intro dry real
  cases disabled : fw.disabled with
  | true =>
    have same : dry = ({ accept := true, reason := .disabled }, fw) ∧ real = dry := by
      simp [dry, real, filter, disabled]
    rw [same.2, same.1]
    refine ⟨rfl, rfl, rfl, rfl, rfl, rfl, ⟨fun _ enabled => ?_, fun _ => rfl⟩, fun dropped => ?_⟩
    · rw [disabled] at enabled
      cases enabled
    · cases dropped
  | false => ?_
  obtain ⟨verdict, alike⟩ := filter_alike disabled p now
  have dryIs : dry = ({ (fw.decidePkt p now).2.1 with
      ctState := if (fw.decidePkt p now).2.1.accept then foretold p (fw.decidePkt p now).1
        else .none }, fw) := by
    simp [dry, filter, disabled]
  have realIs : real.1 = { (fw.decidePkt p now).2.1 with
      ctState := if (fw.decidePkt p now).2.1.accept then
        (fw.commit p (fw.decidePkt p now).1 now).1 else .none
      log := real.1.log } := by
    cases accepted : (fw.decidePkt p now).2.1.accept <;>
      simp [real, filter, disabled, accepted]
  rw [dryIs, realIs]
  refine ⟨rfl, rfl, rfl, rfl, rfl, rfl, ?_, fun dropped => ?_⟩
  · -- Only an accepted packet has a flow whose state could be told.
    cases accepted : (fw.decidePkt p now).2.1.accept with
    | false =>
      refine ⟨fun _ _ taken => ?_, fun _ => rfl⟩
      rw [accepted] at taken
      cases taken
    | true =>
      obtain ⟨sameCls, judged⟩ := decidePkt_accept accepted
      simp only [if_true, sameCls, commit_foretold judged]
      exact ⟨fun seen _ _ => seen, fun seen => seen disabled accepted⟩
  · have kept : fw.remembered p now = fw := by
      rw [remembered, if_neg (by rw [dropped]; exact Bool.false_ne_true)]
    rw [kept] at alike
    exact ⟨alike.conns, alike.expects⟩

end Firewall

/-- A question of ours to a name server. -/
def sampleQuery : Pkt :=
  { dir := .outbound, proto := protoUdp, src := 0x0A00020F, dst := 0x01020304,
    sport := 40000, dport := 53 }

/-- When we ask again before there is an answer, a dry run reports that there was one. -/
theorem dryRun_misreports :
    let asked := (Firewall.init.filter sampleQuery 0 true).2
    (asked.filter sampleQuery 1 false).1.ctState = .udpReplied ∧
      (asked.filter sampleQuery 1 true).1.ctState = .udpUnreplied := by
  decide +kernel

end NovaOs.Fw
