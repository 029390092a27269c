import NovaOs.Firewall.Filter

/-! What the filter's decisions say about the packet and about the tables. -/

namespace NovaOs.Fw

/-- The same flow as its other end sees it. -/
def Key.reverse (k : Key) : Key :=
  { proto := k.proto, src := k.dst, sport := k.dport, dst := k.src, dport := k.sport }

/-- The tuple of the packet that started a flow. -/
def Conn.key (c : Conn) : Key :=
  { proto := c.proto, src := c.aIp, sport := c.aPort, dst := c.bIp, dport := c.bPort }

/-- A packet that belongs to a flow by its own header: an ICMP message only if it is an echo. -/
def Pkt.carriesKey (p : Pkt) : Bool :=
  p.proto != protoIcmp || p.icmpType == 0 || p.icmpType == 8

theorem Key.reverse_reverse {k : Key} : k.reverse.reverse = k := rfl

/-- An ICMP error that quotes a packet of a flow. -/
def Quotes (p : Pkt) (k : Key) : Prop :=
  p.proto = protoIcmp ∧ isIcmpError p.icmpType = true ∧
    ∃ inner, p.inner = some inner ∧ inner.key = k

/-- A packet is on side 0 of a flow with the flow's tuple, on side 1 with the reverse. -/
theorem sideOf_eq_some {c : Conn} {k : Key} {side : Fin 2} (on : sideOf c k = some side) :
    (side = 0 ∧ k = c.key) ∨ (side = 1 ∧ k = c.key.reverse) := by
  unfold sideOf at on
  split at on
  · cases on
  rename_i sameProto
  simp only [bne_iff_ne, ne_eq, not_not] at sameProto
  split at on
  · rename_i fields
    simp only [Bool.and_eq_true, beq_iff_eq] at fields
    obtain ⟨⟨⟨srcIs, sportIs⟩, dstIs⟩, dportIs⟩ := fields
    left
    cases on
    refine ⟨rfl, ?_⟩
    simp only [Conn.key, sameProto, srcIs, sportIs, dstIs, dportIs]
  split at on
  · rename_i fields
    simp only [Bool.and_eq_true, beq_iff_eq] at fields
    obtain ⟨⟨⟨srcIs, sportIs⟩, dstIs⟩, dportIs⟩ := fields
    right
    cases on
    refine ⟨rfl, ?_⟩
    simp only [Conn.key, Key.reverse, sameProto, srcIs, sportIs, dstIs, dportIs]
  · cases on

namespace Firewall

variable {fw : Firewall} {p : Pkt} {now : UInt32} {cls : Cls} {side : Fin 2} {c : Conn}
  {next : CtState}

/-- A flow that is found is live, and the key belongs to it, on the side asked for if one is. -/
theorem find_eq_some {k : Key} {want : Option (Fin 2)} {idx : Fin maxConns}
    (found : fw.find k now want = some (idx, side)) :
    (fw.conns idx).live now = true ∧ sideOf (fw.conns idx) k = some side ∧
      ∀ wanted, want = some wanted → side = wanted := by
  simp only [find, Option.bind_eq_bind, Option.bind_eq_some_iff, Option.pure_def,
    Option.some.injEq, Prod.mk.injEq] at found
  obtain ⟨at_, first, on, sided, same, sameSide⟩ := found
  subst same sameSide
  have passed := Table.first?_eq_some first
  simp only [Bool.and_eq_true, sided, Option.any_some] at passed
  refine ⟨passed.1, sided, ?_⟩
  rintro wanted rfl
  have same : wanted = on := by simpa using passed.2
  exact same.symm

theorem Conn.live_used (live : c.live now = true) : c.used = true := by
  simp only [Conn.live, Bool.and_eq_true] at live
  exact live.1

/-- What a class says about the packet and the table. -/
def Means (fw : Firewall) (p : Pkt) : Cls → Prop
  | .invalid _ => True
  | .existing idx side _ _ =>
    p.carriesKey = true ∧ (fw.conns idx).used = true ∧ sideOf (fw.conns idx) (keyOf p) = some side
  | .related idx =>
    (fw.conns idx).used = true ∧
      ∃ k side, Quotes p k ∧ sideOf (fw.conns idx) k = some side
  | .relatedNew ex =>
    p.dir = .inbound ∧ p.proto = protoUdp ∧ (fw.expects ex).used = true ∧
      (fw.expects ex).remoteIp = p.src ∧ (fw.expects ex).localIp = p.dst ∧
      (fw.expects ex).localPort = p.dport
  | .new | .replace _ => p.carriesKey = true

/-- What was looked up for a packet, and what came of it, class by class. -/
def Finds (fw : Firewall) (p : Pkt) (now : UInt32) : Cls → Prop
  | .invalid _ => True
  | .existing idx side next finFrom =>
    (∃ want, fw.find (keyOf p) now want = some (idx, side)) ∧
      (p.proto = protoTcp ∧ (∃ fc,
          tcpNext (fw.conns idx).state side fc (fw.conns idx).finFrom = some (next, finFrom)) ∨
        p.proto = protoUdp ∧ next = .udpReplied ∨
        p.proto = protoIcmp ∧ next = .icmpEcho ∧
          (p.icmpType = 8 ∧ side.val = 0 ∨
            p.icmpType = 0 ∧ side.val = 1 ∧ 0 < (fw.conns idx).pending))
  | .related idx => ∃ k side, Quotes p k ∧ fw.find k now none = some (idx, side)
  | .relatedNew ex =>
    (p.proto = protoUdp ∧ fw.find (keyOf p) now none = none) ∧ p.dir = .inbound ∧
      (fw.expects ex).used = true ∧ (fw.expects ex).remoteIp = p.src ∧
      (fw.expects ex).localIp = p.dst ∧ (fw.expects ex).localPort = p.dport
  | .new =>
    (p.proto = protoTcp ∨ p.proto = protoUdp) ∧ fw.find (keyOf p) now none = none ∨
      p.proto = protoIcmp ∧ p.icmpType = 8
  | .replace idx =>
    p.proto = protoTcp ∧ (∃ side, fw.find (keyOf p) now none = some (idx, side)) ∧
      ((fw.conns idx).state = .timeWait ∨ (fw.conns idx).state = .close)

private theorem classifyTcp_finds (tcp : p.proto = protoTcp) :
    fw.Finds p now (fw.classifyTcp p now) := by
  -- Follow the source's own decisions; only a flow that was found is named in the class.
  unfold classifyTcp
  split
  · trivial
  split
  · trivial
  rename_i fc _
  split
  · rename_i idx side found
    dsimp only
    split
    · -- A SYN for a flow that is finished.
      rename_i finished
      simp only [Bool.and_eq_true, Bool.or_eq_true, beq_iff_eq] at finished
      exact ⟨tcp, ⟨side, found⟩, finished.2⟩
    · split
      · rename_i next finFrom moves
        exact ⟨⟨none, found⟩, .inl ⟨tcp, fc, moves⟩⟩
      · trivial
  · rename_i missed
    split
    · exact .inl ⟨.inl tcp, missed⟩
    · trivial

private theorem classifyUdp_finds (udp : p.proto = protoUdp) :
    fw.Finds p now (fw.classifyUdp p now) := by
  unfold classifyUdp
  split
  · trivial
  split
  · rename_i idx side found
    exact ⟨⟨none, found⟩, .inr (.inl ⟨udp, rfl⟩)⟩
  rename_i missed
  split
  · rename_i ex expected
    -- Only an inbound datagram is looked up among the expectations.
    simp only [findExpect] at expected
    split at expected
    · cases expected
    rename_i kind
    simp only [Bool.or_eq_true, bne_iff_ne, ne_eq, not_or, not_not] at kind
    have passed := Table.first?_eq_some expected
    simp only [Bool.and_eq_true, beq_iff_eq] at passed
    obtain ⟨⟨⟨⟨used, _⟩, remote⟩, localIs⟩, port⟩ := passed
    exact ⟨⟨udp, missed⟩, kind.1, used, remote, localIs, port⟩
  · exact .inl ⟨.inr udp, missed⟩

private theorem classifyIcmp_finds (icmp : p.proto = protoIcmp) :
    fw.Finds p now (fw.classifyIcmp p now) := by
  unfold classifyIcmp
  split
  · trivial
  split
  · rename_i request
    have request : p.icmpType = 8 := by simpa using request
    split
    · rename_i idx side found
      have asked : side.val = 0 := congrArg Fin.val ((find_eq_some found).2.2 0 rfl)
      exact ⟨⟨_, found⟩, .inr (.inr ⟨icmp, rfl, .inl ⟨request, asked⟩⟩)⟩
    · exact .inr ⟨icmp, request⟩
  split
  · rename_i reply
    have reply : p.icmpType = 0 := by simpa using reply
    split
    · rename_i idx side found
      have answers : side.val = 1 := congrArg Fin.val ((find_eq_some found).2.2 1 rfl)
      split
      · rename_i pending
        exact ⟨⟨_, found⟩, .inr (.inr ⟨icmp, rfl, .inr ⟨reply, answers, pending⟩⟩)⟩
      · trivial
    · trivial
  · split
    · rename_i failure
      -- An error is looked up by the packet it quotes, whichever way that one went.
      split
      · trivial
      rename_i inner quoted
      split
      · rename_i idx side found
        exact ⟨_, _, ⟨icmp, failure, inner, quoted, rfl⟩, found⟩
      · trivial
    · trivial

/-- Every class is given for a reason. -/
theorem classify_finds (fw : Firewall) (p : Pkt) (now : UInt32) :
    fw.Finds p now (fw.classify p now) := by
  unfold classify
  split
  · rename_i tcp
    exact classifyTcp_finds (by simpa using tcp)
  split
  · rename_i udp
    exact classifyUdp_finds (by simpa using udp)
  · split
    · rename_i icmp
      exact classifyIcmp_finds (by simpa using icmp)
    · trivial

theorem Pkt.carriesKey_of
    (kind : p.proto = protoTcp ∨ p.proto = protoUdp ∨
    p.proto = protoIcmp ∧ (p.icmpType = 8 ∨ p.icmpType = 0)) : p.carriesKey = true := by
  rcases kind with tcp | udp | ⟨_, request | reply⟩
  · simp [Pkt.carriesKey, tcp, protoTcp, protoIcmp]
  · simp [Pkt.carriesKey, udp, protoUdp, protoIcmp]
  · simp [Pkt.carriesKey, request]
  · simp [Pkt.carriesKey, reply]

theorem classify_means (fw : Firewall) (p : Pkt) (now : UInt32) :
    fw.Means p (fw.classify p now) := by
  have finds := fw.classify_finds p now
  cases cls : fw.classify p now with
  | invalid why => trivial
  | existing idx side next finFrom =>
    rw [cls] at finds
    obtain ⟨⟨want, found⟩, kind⟩ := finds
    obtain ⟨live, on, _⟩ := find_eq_some found
    refine ⟨Pkt.carriesKey_of ?_, Conn.live_used live, on⟩
    exact kind.imp (·.1) (.imp (·.1) fun icmp => ⟨icmp.1, icmp.2.2.imp (·.1) (·.1)⟩)
  | related idx =>
    rw [cls] at finds
    obtain ⟨k, side, quotes, found⟩ := finds
    obtain ⟨live, on, _⟩ := find_eq_some found
    exact ⟨Conn.live_used live, k, side, quotes, on⟩
  | relatedNew ex =>
    rw [cls] at finds
    exact ⟨finds.2.1, finds.1.1, finds.2.2⟩
  | new =>
    rw [cls] at finds
    rcases finds with ⟨kind, _⟩ | ⟨icmp, request⟩
    · exact Pkt.carriesKey_of (kind.imp id .inl)
    · exact Pkt.carriesKey_of (.inr (.inr ⟨icmp, .inl request⟩))
  | replace idx =>
    rw [cls] at finds
    exact Pkt.carriesKey_of (.inl finds.1)

/-- The packet is judged by its class, and only a valid one can be accepted. -/
theorem decidePkt_accept (accepted : (fw.decidePkt p now).2.1.accept = true) :
    (fw.decidePkt p now).1 = fw.classify p now ∧
      (fw.judge p (fw.classify p now) now).1.accept = true := by
  unfold decidePkt at accepted ⊢
  cases whole : p.bad with
  | none =>
    simp only [whole] at accepted ⊢
    split at accepted
    · cases accepted
    · exact ⟨rfl, accepted⟩
  | fragment | unsupported | malformed => simp [whole] at accepted

/-- A packet that starts a flow is only accepted while there is room for it. -/
theorem judge_room (accepted : (fw.judge p cls now).1.accept = true) :
    ((cls = .new ∨ ∃ ex, cls = .relatedNew ex) → fw.hasFreeSlot now = true) ∧
      (cls = .new → p.proto = protoTcp → p.dir = .inbound →
        fw.halfOpenInbound now < halfOpenMax) := by
  unfold judge at accepted
  generalize (if (p.dir == .inbound) = true then fw.policyIn else fw.policyOut) = policy at accepted
  dsimp only at accepted
  -- Whether a rule or the policy would let it through, the tables have the last word.
  split at accepted
  all_goals
    split at accepted
    · constructor
      · intro starts
        by_contra full
        rw [Bool.not_eq_true] at full
        rcases starts with rfl | ⟨ex, rfl⟩ <;> simp [full] at accepted
      · rintro rfl tcp inbound
        by_contra many
        have full : halfOpenMax ≤ fw.halfOpenInbound now := Nat.le_of_not_lt many
        simp only [tcp, inbound, full, beq_self_eq_true, Bool.and_self, decide_true,
          if_true] at accepted
        split at accepted <;> cases accepted
    · rename_i refused
      exact absurd accepted refused

/-- A flow starts with the tuple of its first packet. -/
theorem startedConn_key {related : Bool} : (startedConn p now related).key = keyOf p := by
  unfold startedConn keyOf
  split <;> rfl

theorem startedConn_replied {related : Bool} : (startedConn p now related).replied = related := rfl

/-- A packet of a flow does not change its tuple, and only side 1 answers. -/
theorem advancedConn_key (side : Fin 2) (finFrom : Fin 2) :
    (advancedConn c p side next finFrom now).key = c.key := by
  unfold advancedConn
  repeat' split
  all_goals rfl

theorem advancedConn_replied {finFrom : Fin 2}
    (replied : (advancedConn c p side next finFrom now).replied = true) :
    side = 1 ∨ c.replied = true := by
  unfold advancedConn at replied
  by_cases answer : side = 1
  · exact .inl answer
  right
  have asks : side = 0 := by omega
  subst asks
  revert replied
  dsimp only
  repeat' split
  all_goals simp_all

/-- Remembering a packet changes tables and counters only. -/
theorem commit_settings (fw : Firewall) (p : Pkt) (cls : Cls) (now : UInt32) :
    (fw.commit p cls now).2.rules = fw.rules ∧ (fw.commit p cls now).2.policyIn = fw.policyIn ∧
      (fw.commit p cls now).2.policyOut = fw.policyOut ∧
      (fw.commit p cls now).2.disabled = fw.disabled ∧
      (fw.commit p cls now).2.locked = fw.locked := by
  cases cls with
  | invalid | existing | related | replace => exact ⟨rfl, rfl, rfl, rfl, rfl⟩
  | relatedNew ex =>
    unfold commit
    dsimp only
    split <;> exact ⟨rfl, rfl, rfl, rfl, rfl⟩
  | new => ?_
  unfold commit
  dsimp only
  split
  · split <;> exact ⟨rfl, rfl, rfl, rfl, rfl⟩
  · exact ⟨rfl, rfl, rfl, rfl, rfl⟩

/-- Two firewalls that differ in their counters at most. -/
structure Alike (left right : Firewall) : Prop where
  rules : left.rules = right.rules
  policyIn : left.policyIn = right.policyIn
  disabled : left.disabled = right.disabled
  conns : left.conns = right.conns
  expects : left.expects = right.expects

/-- The firewall once a packet has been remembered, if it is let through at all. -/
def remembered (fw : Firewall) (p : Pkt) (now : UInt32) : Firewall :=
  if (fw.decidePkt p now).2.1.accept then (fw.commit p (fw.decidePkt p now).1 now).2 else fw

theorem hit_alike {v : Verdict} : Alike (fw.hit v p) fw := by
  unfold hit
  split <;> exact ⟨rfl, rfl, rfl, rfl, rfl⟩

theorem wantLog_alike {wanted : Bool} : Alike (fw.wantLog wanted).2 fw := by
  unfold wantLog
  split
  · exact ⟨rfl, rfl, rfl, rfl, rfl⟩
  · dsimp only
    split <;> exact ⟨rfl, rfl, rfl, rfl, rfl⟩

theorem Alike.trans {one two three : Firewall} (first : Alike one two) (second : Alike two three) :
    Alike one three :=
  ⟨first.rules.trans second.rules, first.policyIn.trans second.policyIn,
    first.disabled.trans second.disabled, first.conns.trans second.conns,
    first.expects.trans second.expects⟩

/-- Counting and logging leave the verdict, the configuration and the tables alone. -/
theorem filter_alike (enabled : fw.disabled = false) (p : Pkt) (now : UInt32) :
    (fw.filter p now true).1.accept = (fw.decidePkt p now).2.1.accept ∧
      Alike (fw.filter p now true).2 (fw.remembered p now) := by
  simp only [filter, remembered, enabled]
  generalize fw.decidePkt p now = decision
  obtain ⟨cls, v, log⟩ := decision
  cases verdict : v.accept with
  | true =>
    simp only [if_true, Bool.not_true, Bool.false_eq_true, if_false]
    exact ⟨trivial, ((wantLog_alike).trans (hit_alike)).trans ⟨rfl, rfl, rfl, rfl, rfl⟩⟩
  | false =>
    simp only [Bool.not_true, Bool.false_eq_true, if_false]
    exact ⟨trivial, ((wantLog_alike).trans (hit_alike)).trans ⟨rfl, rfl, rfl, rfl, rfl⟩⟩

end Firewall

end NovaOs.Fw
