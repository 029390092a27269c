import NovaOs.Firewall.Meaning

/-! Under the built-in configuration nothing gets in that was not asked for. -/

namespace NovaOs.Fw

open List

variable (log : List Pkt)

/-- We sent on a tuple: a packet that carries it left. -/
def Sent (k : Key) : Prop :=
  ∃ o ∈ log, o.dir = .outbound ∧ o.carriesKey = true ∧ keyOf o = k

/-- A packet that carries a tuple was let in. -/
def Received (k : Key) : Prop :=
  ∃ a ∈ log, a.dir = .inbound ∧ a.carriesKey = true ∧ keyOf a = k

/-- A host's datagrams to the local port from which its TFTP service was asked. -/
def AnswersTftp (k : Key) : Prop :=
  k.proto = protoUdp ∧ ∃ o ∈ log, o.dir = .outbound ∧ o.proto = protoUdp ∧
    o.dport = tftpPort ∧ o.dst = k.src ∧ o.src = k.dst ∧ o.sport = k.dport

/-- A packet is a reply, an error about a flow we sent on, or a TFTP answer. -/
def Justified (p : Pkt) : Prop :=
  (p.carriesKey = true ∧ Sent log (keyOf p).reverse) ∨
  (∃ k, Quotes p k ∧ (Sent log k ∨ Sent log k.reverse)) ∨
  AnswersTftp log (keyOf p)

/-- A flow a host opened, and we let in, as the answer to a TFTP request. -/
def TftpFlow (k : Key) : Prop :=
  Received log k ∧ AnswersTftp log k

/--
A packet goes back to one we sent: it is justified, it is an error about a TFTP answer or
travels against one, or it repeats a tuple of ours that has been answered.
-/
def Traceable (p : Pkt) : Prop :=
  Justified log p ∨
  (∃ k, Quotes p k ∧ (TftpFlow log k ∨ TftpFlow log k.reverse)) ∨
  (p.carriesKey = true ∧ TftpFlow log (keyOf p).reverse) ∨
  (p.carriesKey = true ∧ Sent log (keyOf p) ∧ Received log (keyOf p).reverse)

section Grow

variable {log : List Pkt} {k : Key} (p : Pkt)

theorem Sent.cons (sent : Sent log k) : Sent (p :: log) k := by
  obtain ⟨o, member, rest⟩ := sent
  exact ⟨o, mem_cons_of_mem _ member, rest⟩

theorem Received.cons (received : Received log k) : Received (p :: log) k := by
  obtain ⟨a, member, rest⟩ := received
  exact ⟨a, mem_cons_of_mem _ member, rest⟩

theorem AnswersTftp.cons (answers : AnswersTftp log k) : AnswersTftp (p :: log) k := by
  obtain ⟨proto, o, member, rest⟩ := answers
  exact ⟨proto, o, mem_cons_of_mem _ member, rest⟩

theorem TftpFlow.cons (flow : TftpFlow log k) : TftpFlow (p :: log) k :=
  ⟨flow.1.cons p, flow.2.cons p⟩

end Grow

namespace Firewall

variable {fw : Firewall} {p : Pkt} {now : UInt32} {cls : Cls} {log : List Pkt}

/-- The built-in configuration is in force. -/
structure Baseline (fw : Firewall) : Prop where
  rules : fw.rules = [baselineRule]
  policyIn : fw.policyIn = false
  enabled : fw.disabled = false

theorem Baseline.init : Baseline Firewall.init := by
  have loaded : Firewall.init
      = loadConfigUnchecked {}
        { rules := [baselineRule], policyIn := false, policyOut := true } := by
    rw [Firewall.init, parseConfig_baseline]
  rw [loaded]
  exact ⟨rfl, rfl, rfl⟩

/-- The built-in rule asks for packets of a known flow and those one has caused. -/
theorem baselineRule_matchesPkt {state : UInt8} (applies : baselineRule.matchesPkt p state = true) :
    (stEstablished ||| stRelated) &&& state ≠ 0 := by
  intro none_
  simp [Rule.matchesPkt, baselineRule, none_] at applies
  exact absurd applies.2.2 (by decide)

/-- Under the built-in rule an inbound packet gets in only as part of something known. -/
theorem Baseline.judge_accept (base : Baseline fw) (inbound : p.dir = .inbound)
    (accepted : (fw.judge p cls now).1.accept = true) :
    (∃ idx side next finFrom, cls = .existing idx side next finFrom ∧
      (side = 1 ∨ (fw.conns idx).replied = true)) ∨
    (∃ idx, cls = .related idx) ∨ ∃ ex, cls = .relatedNew ex := by
  by_cases applies : baselineRule.matchesPkt p (fw.stateOf cls) = true
  · have asked := baselineRule_matchesPkt applies
    cases cls with
    | invalid why | new | replace idx =>
      rw [stateOf] at asked
      exact absurd asked (by decide)
    | related idx => exact .inr (Or.inl ⟨idx, rfl⟩)
    | relatedNew ex => exact .inr (Or.inr ⟨ex, rfl⟩)
    | existing idx side next finFrom => ?_
    -- A flow that nobody answered is still new to the rules.
    refine .inl ⟨idx, side, next, finFrom, rfl, ?_⟩
    by_contra unanswered
    have fresh : fw.stateOf (.existing idx side next finFrom) = stNew := by
      simp_all [stateOf]
    rw [fresh] at asked
    exact asked (by decide)
  · -- Without the rule the policy decides, and it drops.
    simp [judge, base.rules, applies, inbound, base.policyIn] at accepted

/-- Every entry of the tables goes back to packets that were let through. -/
structure Rooted (conns : Fin maxConns → Conn) (expects : Fin maxExpect → Expect)
    (log : List Pkt) : Prop where
  flows : ∀ i, (conns i).used = true →
    (Sent log (conns i).key ∧ ((conns i).replied = true →
      Sent log (conns i).key.reverse ∨ Received log (conns i).key.reverse)) ∨
    TftpFlow log (conns i).key
  requests : ∀ i, (expects i).used = true →
    ∃ o ∈ log, o.dir = .outbound ∧ o.proto = protoUdp ∧ o.dport = tftpPort ∧
      o.dst = (expects i).remoteIp ∧ o.src = (expects i).localIp ∧ o.sport = (expects i).localPort

namespace Rooted

variable {conns : Fin maxConns → Conn} {expects : Fin maxExpect → Expect}

/-- The log only grows. -/
theorem cons (rooted : Rooted conns expects log) (p : Pkt) : Rooted conns expects (p :: log) where
  flows := by
    intro i used
    rcases rooted.flows i used with ⟨sent, answered⟩ | flow
    · left
      refine ⟨sent.cons p, fun replied => ?_⟩
      exact (answered replied).imp (·.cons p) (·.cons p)
    · exact .inr (flow.cons p)
  requests := by
    intro i used
    obtain ⟨o, member, rest⟩ := rooted.requests i used
    exact ⟨o, mem_cons_of_mem _ member, rest⟩

/-- One entry is replaced by one that has its own root. -/
theorem setConn (rooted : Rooted conns expects log) {idx : Fin maxConns} {c : Conn}
    (root : (Sent log c.key ∧ (c.replied = true →
      Sent log c.key.reverse ∨ Received log c.key.reverse)) ∨ TftpFlow log c.key) :
    Rooted (Function.update conns idx c) expects log where
  flows := by
    intro i
    by_cases here : i = idx
    · subst here
      rw [Function.update_self]
      exact fun _ => root
    · rw [Function.update_of_ne here]
      exact rooted.flows i
  requests := rooted.requests

/-- So is one expectation. -/
theorem setExpect (rooted : Rooted conns expects log) {ex : Fin maxExpect} {e : Expect}
    (root : e.used = true → ∃ o ∈ log, o.dir = .outbound ∧ o.proto = protoUdp ∧
      o.dport = tftpPort ∧ o.dst = e.remoteIp ∧ o.src = e.localIp ∧ o.sport = e.localPort) :
    Rooted conns (Function.update expects ex e) log where
  flows := rooted.flows
  requests := by
    intro i
    by_cases here : i = ex
    · subst here
      rw [Function.update_self]
      exact root
    · rw [Function.update_of_ne here]
      exact rooted.requests i

end Rooted

/-- A flow that a packet of ours starts has that packet as its root. -/
theorem Rooted.started (rooted : Rooted fw.conns fw.expects (p :: log))
    (carries : p.carriesKey = true) (outbound : p.dir = .outbound) (i : Fin maxConns) :
    Rooted (Function.update fw.conns i (startedConn p now false)) fw.expects (p :: log) := by
  refine rooted.setConn (Or.inl ?_)
  rw [startedConn_key, startedConn_replied]
  exact ⟨⟨p, mem_cons_self, outbound, carries, rfl⟩, nofun⟩

/-- Remembering an accepted packet gives every entry it touches a root. -/
theorem Rooted.commit (rooted : Rooted fw.conns fw.expects log) (means : fw.Means p cls)
    (starts : (cls = .new ∨ ∃ idx, cls = .replace idx) → p.dir = .outbound) :
    Rooted (fw.commit p cls now).2.conns (fw.commit p cls now).2.expects (p :: log) := by
  have grown := rooted.cons p
  cases cls with
  | invalid why | related idx => exact grown
  | existing idx side next finFrom =>
    obtain ⟨carries, used, on⟩ := means
    refine grown.setConn ?_
    rw [advancedConn_key]
    rcases grown.flows idx used with ⟨sent, answered⟩ | flow
    · -- The entry keeps its root; if this packet is the answer, it is now in the log.
      left
      refine ⟨sent, fun replied => ?_⟩
      rcases advancedConn_replied replied with answer | before
      · rcases sideOf_eq_some on with ⟨same, _⟩ | ⟨_, reversed⟩
        · rw [same] at answer
          cases answer
        · cases dir : p.dir with
          | inbound => exact .inr ⟨p, mem_cons_self, dir, carries, reversed⟩
          | outbound => exact .inl ⟨p, mem_cons_self, dir, carries, reversed⟩
      · exact answered before
    · exact .inr flow
  | relatedNew ex =>
    obtain ⟨inbound, udp, used, remote, localIs, port⟩ := means
    have carries : p.carriesKey = true := by simp [Pkt.carriesKey, udp, protoUdp, protoIcmp]
    -- The expectation that let the packet in was made by a request of ours.
    obtain ⟨o, member, left_, isUdp, toTftp, dst, src, sport⟩ := grown.requests ex used
    have key : keyOf p = ⟨p.proto, p.src, p.sport, p.dst, p.dport⟩ := by
      simp [keyOf, udp, protoUdp, protoIcmp]
    have flow : TftpFlow (p :: log) (keyOf p) := by
      refine ⟨⟨p, mem_cons_self, inbound, carries, rfl⟩, ?_⟩
      rw [key]
      exact ⟨udp, o, member, left_, isUdp, toTftp, dst.trans remote, src.trans localIs,
        sport.trans port⟩
    have spent : Rooted fw.conns
        (Function.update fw.expects ex { fw.expects ex with used := false }) (p :: log) :=
      grown.setExpect (by simp)
    unfold commit
    dsimp only
    split
    · refine spent.setConn (Or.inr ?_)
      rw [startedConn_key]
      exact flow
    · exact spent
  | new =>
    have started := @Rooted.started fw p now log grown means (starts (Or.inl rfl))
    unfold commit
    dsimp only
    split
    · rename_i i _
      split
      · -- A TFTP request is itself the root of the expectation it leaves.
        rename_i request
        simp only [Bool.and_eq_true, beq_iff_eq] at request
        obtain ⟨⟨udp, outbound⟩, toTftp⟩ := request
        exact (started i).setExpect fun _ =>
          ⟨p, mem_cons_self, outbound, udp, toTftp, rfl, rfl, rfl⟩
      · exact started i
    · exact grown
  | replace idx => exact grown.started means (starts (Or.inr ⟨idx, rfl⟩)) idx

/-- Nothing a packet does changes the configuration. -/
theorem Baseline.commit (base : Baseline fw) (p : Pkt) (cls : Cls) (now : UInt32) :
    Baseline (fw.commit p cls now).2 := by
  obtain ⟨rules, policyIn, _, disabled, _⟩ := fw.commit_settings p cls now
  exact ⟨rules.trans base.rules, policyIn.trans base.policyIn, disabled.trans base.enabled⟩

/-- One packet passes the filter and is noted if it is let through. -/
def pass (state : Firewall × List Pkt) (packet : Pkt × UInt32) : Firewall × List Pkt :=
  let (v, fw) := state.1.filter packet.1 packet.2 true
  (fw, if v.accept then packet.1 :: state.2 else state.2)

/-- A trace of packets and clock values from boot, with those let through, newest first. -/
def run (trace : List (Pkt × UInt32)) : Firewall × List Pkt :=
  trace.foldl pass (init, [])

/-- The configuration stays, and the tables stay rooted in the packets let through. -/
theorem pass_rooted {state : Firewall × List Pkt} (base : Baseline state.1)
    (rooted : Rooted state.1.conns state.1.expects state.2) (packet : Pkt × UInt32) :
    Baseline (pass state packet).1 ∧
      Rooted (pass state packet).1.conns (pass state packet).1.expects (pass state packet).2 := by
  obtain ⟨fw, log⟩ := state
  obtain ⟨p, now⟩ := packet
  obtain ⟨accepted, alike⟩ := filter_alike base.enabled p now
  simp only [pass, accepted, alike.conns, alike.expects]
  unfold remembered at alike ⊢
  cases verdict : (fw.decidePkt p now).2.1.accept with
  | false =>
    simp only [verdict, Bool.false_eq_true, if_false] at alike ⊢
    exact ⟨⟨alike.rules.trans base.rules, alike.policyIn.trans base.policyIn,
      alike.disabled.trans base.enabled⟩, rooted⟩
  | true => ?_
  simp only [verdict, if_true] at alike ⊢
  obtain ⟨cls, judged⟩ := decidePkt_accept verdict
  have kept := base.commit p (fw.decidePkt p now).1 now
  refine ⟨⟨alike.rules.trans kept.rules, alike.policyIn.trans kept.policyIn,
    alike.disabled.trans kept.enabled⟩, ?_⟩
  rw [cls]
  refine rooted.commit (fw.classify_means p now) ?_
  -- Only packets of ours start flows: an inbound one would have to belong to one already.
  intro starts
  cases dir : p.dir with
  | outbound => rfl
  | inbound =>
    rcases base.judge_accept dir judged with ⟨_, _, _, _, known, _⟩ | ⟨_, known⟩ | ⟨_, known⟩ <;>
      rcases starts with fresh | ⟨_, fresh⟩ <;> simp [known] at fresh

/-- So over any trace, since at boot the tables are empty. -/
theorem run_rooted (trace : List (Pkt × UInt32)) :
    Baseline (run trace).1 ∧
      Rooted (run trace).1.conns (run trace).1.expects (run trace).2 := by
  have kept : ∀ (packets : List (Pkt × UInt32)) (state : Firewall × List Pkt),
      Baseline state.1 ∧ Rooted state.1.conns state.1.expects state.2 →
      Baseline (packets.foldl pass state).1 ∧
        Rooted (packets.foldl pass state).1.conns (packets.foldl pass state).1.expects
          (packets.foldl pass state).2 := by
    intro packets
    induction packets with
    | nil => exact fun _ start => start
    | cons packet rest ih => exact fun state start => ih _ (pass_rooted start.1 start.2 packet)
  refine kept trace (init, []) ⟨.init, ?_⟩
  have empty : Firewall.init.conns = (fun _ => {}) ∧ Firewall.init.expects = (fun _ => {}) := by
    rw [Firewall.init, parseConfig_baseline]
    exact ⟨rfl, rfl⟩
  rw [empty.1, empty.2]
  exact ⟨fun _ used => (by cases used), fun _ used => (by cases used)⟩

end Firewall

/--
From boot and over any trace of packets and clock values, every inbound packet that the
built-in configuration lets in goes back to a packet that it let out before.
-/
theorem baseline_traceable (trace : List (Pkt × UInt32)) (p : Pkt) (now : UInt32)
    (inbound : p.dir = .inbound)
    (accepted : ((Firewall.run trace).1.filter p now true).1.accept = true) :
    Traceable (Firewall.run trace).2 p := by
  obtain ⟨base, rooted⟩ := Firewall.run_rooted trace
  rw [(Firewall.filter_alike base.enabled p now).1] at accepted
  obtain ⟨_, judged⟩ := Firewall.decidePkt_accept accepted
  have means := (Firewall.run trace).1.classify_means p now
  rcases base.judge_accept inbound judged with
    ⟨idx, side, next, finFrom, cls, heard⟩ | ⟨idx, cls⟩ | ⟨ex, cls⟩
  · rw [cls] at means
    obtain ⟨carries, used, on⟩ := means
    rcases sideOf_eq_some on with ⟨own, same⟩ | ⟨_, reversed⟩
    · -- The flow's own tuple, so its other end has been heard from before.
      have replied : ((Firewall.run trace).1.conns idx).replied = true := by
        rcases heard with answer | replied
        · rw [own] at answer
          cases answer
        · exact replied
      rcases rooted.flows idx used with ⟨sent, answered⟩ | flow
      · rw [← same] at sent answered
        rcases answered replied with ours | theirs
        · exact .inl (Or.inl ⟨carries, ours⟩)
        · exact .inr (Or.inr (Or.inr ⟨carries, sent, theirs⟩))
      · rw [← same] at flow
        exact .inl (Or.inr (Or.inr flow.2))
    · -- The reverse of the tuple the flow was started with.
      have back : (keyOf p).reverse = ((Firewall.run trace).1.conns idx).key := by
        rw [reversed, Key.reverse_reverse]
      rcases rooted.flows idx used with ⟨sent, _⟩ | flow
      · rw [← back] at sent
        exact .inl (Or.inl ⟨carries, sent⟩)
      · rw [← back] at flow
        exact .inr (Or.inr (Or.inl ⟨carries, flow⟩))
  · -- An error about a flow, which it may quote either way round.
    rw [cls] at means
    obtain ⟨used, k, side, quotes, on⟩ := means
    have either : ((Firewall.run trace).1.conns idx).key = k ∨
        ((Firewall.run trace).1.conns idx).key = k.reverse := by
      rcases sideOf_eq_some on with ⟨_, same⟩ | ⟨_, reversed⟩
      · exact .inl same.symm
      · rw [reversed, Key.reverse_reverse]
        exact .inr rfl
    rcases rooted.flows idx used with ⟨sent, _⟩ | flow
    · refine .inl (Or.inr (Or.inl ⟨k, quotes, ?_⟩))
      rcases either with same | same
      · exact .inl (same ▸ sent)
      · exact .inr (same ▸ sent)
    · refine .inr (Or.inl ⟨k, quotes, ?_⟩)
      rcases either with same | same
      · exact .inl (same ▸ flow)
      · exact .inr (same ▸ flow)
  · -- A datagram that was expected, because we asked for it.
    rw [cls] at means
    obtain ⟨_, udp, used, remote, localIs, port⟩ := means
    obtain ⟨o, member, outbound, isUdp, toTftp, dst, src, sport⟩ := rooted.requests ex used
    have key : keyOf p = ⟨p.proto, p.src, p.sport, p.dst, p.dport⟩ := by
      simp [keyOf, udp, protoUdp, protoIcmp]
    refine .inl (Or.inr (Or.inr ?_))
    rw [key]
    exact ⟨udp, o, member, outbound, isUdp, toTftp, dst.trans remote, src.trans localIs,
      sport.trans port⟩

/-- We ask a host's TFTP service, from port 5000. -/
def sampleRequest : Pkt where
  dir := .outbound
  proto := protoUdp
  src := 0x0A00020F
  dst := 0x0A000202
  sport := 5000
  dport := tftpPort

/-- The host answers from another port, as TFTP does. -/
def sampleAnswer : Pkt where
  dir := .inbound
  proto := protoUdp
  src := 0x0A000202
  dst := 0x0A00020F
  sport := 2000
  dport := 5000

/-- Then someone sends an error about that answer. -/
def sampleError : Pkt where
  dir := .inbound
  proto := protoIcmp
  src := 0x0A000203
  dst := 0x0A00020F
  icmpType := 3
  inner := some
    { proto := protoUdp, src := 0x0A000202, dst := 0x0A00020F, sport := 2000, dport := 5000 }

/-- Both packets of the host get through. -/
private theorem sample_through :
    ((Firewall.run [(sampleRequest, 0), (sampleAnswer, 1)]).1.filter sampleError 2 true).1.accept
      = true ∧
    (Firewall.run [(sampleRequest, 0), (sampleAnswer, 1)]).2 = [sampleAnswer, sampleRequest] := by
  decide +kernel

theorem baseline_traceable_tftp_error :
    ((Firewall.run [(sampleRequest, 0), (sampleAnswer, 1)]).1.filter sampleError 2 true).1.accept
      = true ∧
    Traceable (Firewall.run [(sampleRequest, 0), (sampleAnswer, 1)]).2 sampleError :=
  ⟨sample_through.1, baseline_traceable _ _ 2 rfl sample_through.1⟩

/-- The error gets in although we have not sent on the flow it is about. -/
theorem tftp_error_unjustified :
    ∃ (trace : List (Pkt × UInt32)) (p : Pkt) (now : UInt32), p.dir = .inbound ∧
      ((Firewall.run trace).1.filter p now true).1.accept = true ∧
      ¬ Justified (Firewall.run trace).2 p := by
  refine ⟨[(sampleRequest, 0), (sampleAnswer, 1)], sampleError, 2, rfl, sample_through.1, ?_⟩
  rw [sample_through.2]
  -- The only packet of ours went to the TFTP port, which the quoted packet does not name.
  intro justified
  rcases justified with ⟨carries, _⟩ | ⟨k, ⟨_, _, inner, quoted, same⟩, sent⟩ | ⟨udp, _⟩
  · exact absurd carries (by decide)
  · simp only [sampleError, Option.some.injEq] at quoted
    subst quoted same
    rcases sent with ⟨o, member, outbound, _, key⟩ | ⟨o, member, outbound, _, key⟩ <;>
      simp only [mem_cons, not_mem_nil, or_false] at member <;>
      rcases member with rfl | rfl <;>
      first
        | exact absurd outbound (by decide)
        | exact absurd key (by decide)
  · exact absurd udp (by decide)

end NovaOs.Fw
