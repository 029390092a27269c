import NovaOs.Firewall.Admin

/-! Connections from outside whose handshake is not complete, and how many of them there can be. -/

namespace NovaOs.Fw

/-- A live TCP flow that was started from outside and has not completed its handshake. -/
def Conn.halfOpen (now : UInt32) (c : Conn) : Bool :=
  c.live now && c.proto == protoTcp && c.origDir == .inbound
    && (c.state == .synSent || c.state == .synRecv)

/-- The packet that an event may have remembered. -/
def Event.pkt? : Event → Option Pkt
  | .packet p => some p
  | .admin (.probe probe) => if probe.commit = 0 then none else some probe.pkt
  | .admin _ => none

/-- An operation on the configuration alone. -/
def Op.edits : Op → Bool
  | .flushConns | .probe _ => false
  | _ => true

/-- A handshake that is over does not begin again within a flow. -/
theorem tcpNext_halfOpen {state next : CtState} {side finFrom first : Fin 2} {fc : Fc}
    (moves : tcpNext state side fc finFrom = some (next, first))
    (open_ : next = .synSent ∨ next = .synRecv) : state = .synSent ∨ state = .synRecv := by
  by_contra settled
  obtain ⟨unsent, unanswered⟩ := not_or.mp settled
  -- No row of the table that starts elsewhere ends in one of the two.
  unfold tcpNext at moves
  split at moves
  all_goals first
    | exact absurd rfl unsent
    | exact absurd rfl unanswered
    | cases moves
  all_goals first
    | exact open_.elim (fun sent => by cases sent) (fun answered => by cases answered)
    | (split at open_ <;> exact open_.elim (fun sent => by cases sent) (fun back => by cases back))

namespace Firewall

variable {fw : Firewall} {p : Pkt} {now : UInt32} {idx : Fin maxConns} {c : Conn} {event : Event}
  {last : UInt32} {side : Fin 2} {i : Fin maxConns} {trace : List (Event × UInt32)}

theorem halfOpenInbound_eq :
    fw.halfOpenInbound now = Table.count (Conn.halfOpen now) fw.conns := rfl

theorem keyOf_proto : (keyOf p).proto = p.proto := by
  unfold keyOf
  split <;> rfl

theorem sideOf_proto {k : Key} (on : sideOf c k = some side) : c.proto = k.proto := by
  unfold sideOf at on
  split at on
  · cases on
  · rename_i same
    simpa using same

/-- What the class of a packet says about the handshake of the flow it belongs to. -/
def Handshake (fw : Firewall) (p : Pkt) (now : UInt32) : Cls → Prop
  | .existing idx side next finFrom =>
    (fw.conns idx).live now = true ∧ (fw.conns idx).proto = p.proto ∧
      (p.proto = protoTcp → ∃ fc,
        tcpNext (fw.conns idx).state side fc (fw.conns idx).finFrom = some (next, finFrom))
  | .replace idx =>
    p.proto = protoTcp ∧ ((fw.conns idx).state = .timeWait ∨ (fw.conns idx).state = .close)
  | .relatedNew _ => p.proto = protoUdp
  | _ => True

theorem classify_handshake (fw : Firewall) (p : Pkt) (now : UInt32) :
    fw.Handshake p now (fw.classify p now) := by
  have finds := fw.classify_finds p now
  cases cls : fw.classify p now with
  | invalid why | related idx | new => trivial
  | existing idx side next finFrom =>
    rw [cls] at finds
    obtain ⟨⟨want, found⟩, kind⟩ := finds
    obtain ⟨live, on, _⟩ := find_eq_some found
    refine ⟨live, by rw [sideOf_proto on, keyOf_proto], fun tcp => ?_⟩
    rcases kind with ⟨_, moves⟩ | ⟨udp, _⟩ | ⟨icmp, _⟩
    · exact moves
    · cases tcp.symm.trans udp
    · cases tcp.symm.trans icmp
  | relatedNew ex =>
    rw [cls] at finds
    exact finds.1.1
  | replace idx =>
    rw [cls] at finds
    exact ⟨finds.1, finds.2.2⟩

/-- A packet of a flow does not make it half-open. -/
theorem halfOpen_advanced {finFrom : Fin 2} {next : CtState} (live : c.live now = true)
    (proto : c.proto = p.proto)
    (moves : p.proto = protoTcp → ∃ fc, tcpNext c.state side fc c.finFrom = some (next, finFrom))
    (after : (advancedConn c p side next finFrom now).halfOpen now = true) :
    c.halfOpen now = true := by
  -- The tuple and its direction stay, so the flow is one of TCP from outside.
  have kept : (advancedConn c p side next finFrom now).proto = c.proto ∧
      (advancedConn c p side next finFrom now).origDir = c.origDir := by
    unfold advancedConn
    repeat' split
    all_goals exact ⟨rfl, rfl⟩
  simp only [Conn.halfOpen, Bool.and_eq_true, Bool.or_eq_true, beq_iff_eq] at after ⊢
  obtain ⟨⟨⟨-, tcp⟩, inbound⟩, open_⟩ := after
  rw [kept.1] at tcp
  rw [kept.2] at inbound
  have state : (advancedConn c p side next finFrom now).state = next := by
    simp [advancedConn, ← proto, tcp]
  rw [state] at open_
  obtain ⟨fc, moves⟩ := moves (proto ▸ tcp)
  exact ⟨⟨⟨live, tcp⟩, inbound⟩, tcpNext_halfOpen moves open_⟩

/-- A time that has just been set has not run out. -/
theorem not_expired {timeout : UInt32} (some_ : 0 < timeout.toNat)
    (short : timeout.toNat < 2 ^ 31) : expired (now + timeout) now = false := by
  rw [expired, decide_eq_false_iff_not, UInt32.lt_iff_toNat_lt, UInt32.toNat_sub, UInt32.toNat_add]
  change ¬ _ < 2 ^ 31
  omega

/-- The flows that start half-open are those of a SYN from outside. -/
theorem halfOpen_started {related : Bool} :
    (startedConn p now related).halfOpen now = true ↔
      related = false ∧ p.proto = protoTcp ∧ p.dir = .inbound := by
  constructor
  · intro open_
    simp only [Conn.halfOpen, Bool.and_eq_true, beq_iff_eq] at open_
    obtain ⟨⟨⟨-, tcp⟩, inbound⟩, state⟩ := open_
    cases related with
    | false => exact ⟨rfl, tcp, inbound⟩
    | true => cases state
  · rintro ⟨rfl, tcp, inbound⟩
    have expires : (startedConn p now false).expires = now + 60 * tickHz := by
      simp [startedConn, connTimeout, tcp]
    have state : (startedConn p now false).state = .synSent := by
      simp [startedConn, tcp]
    have live : (startedConn p now false).live now = true := by
      rw [Conn.live, expires, not_expired (by decide) (by decide)]
      rfl
    have proto : (startedConn p now false).proto = protoTcp := tcp
    have origDir : (startedConn p now false).origDir = .inbound := inbound
    simp [Conn.halfOpen, live, proto, origDir, state]

/-- An event that puts a half-open flow in the place of one that is finished: an inbound SYN that is
accepted, for a tuple that was in use before. -/
def Replaces (fw : Firewall) (now : UInt32) (event : Event) : Prop :=
  fw.disabled = false ∧ ∃ p ∈ event.pkt?, (fw.decidePkt p now).2.1.accept = true ∧
    p.dir = .inbound ∧ ∃ idx, fw.classify p now = .replace idx

/-- A slot that was not half-open gets a flow that may be. -/
theorem count_started {conns : Fin maxConns → Conn} (closed : (conns i).halfOpen now = false)
    (related : Bool) :
    Table.count (Conn.halfOpen now) (Function.update conns i (startedConn p now related))
      = Table.count (Conn.halfOpen now) conns
        + (if related = false ∧ p.proto = protoTcp ∧ p.dir = .inbound then 1 else 0) := by
  have moved := Table.count_update (Conn.halfOpen now) conns i (startedConn p now related)
  rw [closed] at moved
  simpa only [Bool.false_eq_true, if_false, Nat.add_zero, halfOpen_started] using moved

theorem finished_closed (finished : c.state = .timeWait ∨ c.state = .close) :
    c.halfOpen now = false := by
  rcases finished with waits | closed
  · simp [Conn.halfOpen, waits]
  · simp [Conn.halfOpen, closed]

/-- A finished flow that is replaced from outside is one half-open flow more. -/
theorem commit_replace (replaced : fw.classify p now = .replace idx) (inbound : p.dir = .inbound) :
    (fw.commit p (.replace idx) now).2.halfOpenInbound now = fw.halfOpenInbound now + 1 := by
  have handshake := fw.classify_handshake p now
  rw [replaced] at handshake
  obtain ⟨tcp, finished⟩ := handshake
  rw [halfOpenInbound_eq, halfOpenInbound_eq]
  have closed : (fw.conns idx).halfOpen now = false := finished_closed finished
  have started := count_started (p := p) closed false
  rwa [if_pos ⟨rfl, tcp, inbound⟩] at started

theorem allocSlot_closed (found : fw.allocSlot now = some i) :
    (fw.conns i).halfOpen now = false := by
  have gone := Table.first?_eq_some found
  rw [Bool.not_eq_true'] at gone
  simp [Conn.halfOpen, gone]

/-- Everything else keeps to the bound. -/
theorem commit_bounded (accepted : (fw.judge p (fw.classify p now) now).1.accept = true)
    (few : fw.halfOpenInbound now ≤ halfOpenMax)
    (fresh : p.dir = .inbound → ∀ idx, fw.classify p now ≠ .replace idx) :
    (fw.commit p (fw.classify p now) now).2.halfOpenInbound now ≤ halfOpenMax := by
  have handshake := fw.classify_handshake p now
  rw [halfOpenInbound_eq] at few ⊢
  cases cls : fw.classify p now with
  | invalid why | related idx => exact few
  | existing idx side next finFrom =>
    rw [cls] at handshake
    obtain ⟨live, proto, moves⟩ := handshake
    refine le_trans (Table.count_mono fun i open_ => ?_) few
    by_cases here : i = idx
    · subst here
      simp only [commit, Function.update_self] at open_
      exact halfOpen_advanced live proto moves open_
    · simpa only [commit, Function.update_of_ne here] using open_
  | relatedNew ex =>
    unfold commit
    dsimp only
    split
    · rename_i i found
      have started := count_started (p := p) (allocSlot_closed found) true
      exact started.le.trans (by simpa using few)
    · exact few
  | new =>
    rw [cls] at accepted
    have bound : Table.count (Conn.halfOpen now) fw.conns
        + (if false = false ∧ p.proto = protoTcp ∧ p.dir = .inbound then 1 else 0)
          ≤ halfOpenMax := by
      split
      · rename_i syn
        exact (judge_room accepted).2 rfl syn.2.1 syn.2.2
      · exact few
    unfold commit
    dsimp only
    split
    · rename_i i found
      have started := (count_started (p := p) (allocSlot_closed found) false).le.trans bound
      split <;> exact started
    · exact few
  | replace idx =>
    have outbound : p.dir ≠ .inbound := fun inbound => fresh inbound idx cls
    rw [cls] at handshake
    have closed : (fw.conns idx).halfOpen now = false := finished_closed handshake.2
    have started := count_started (p := p) closed false
    rw [if_neg fun syn => outbound syn.2.2] at started
    exact started.le.trans few

theorem edit_conns {op : Op} {changed : Firewall} (edits : op.edits = true)
    (done : fw.admin now op = .ok changed) : changed.conns = fw.conns := by
  cases op with
  | flushConns | probe probe => cases edits
  | lock =>
    cases done
    rfl
  | loadConfig text | addRule text pos | delRule idx | flushRules | setPolicy dir accept
  | setEnabled on =>
    simp only [admin, applyConfig, addRuleText, addRule, delRule, flushRules, setPolicy,
      setEnabled] at done
    repeat' split at done
    all_goals cases done
    all_goals rfl

/-- The flows after an event: as they were, all forgotten, or with an accepted packet remembered. -/
theorem happen_conns (fw : Firewall) (now : UInt32) (event : Event) :
    (fw.happen now event).conns = fw.conns ∨ (fw.happen now event).conns = (fun _ => {}) ∨
      ∃ p ∈ event.pkt?, fw.disabled = false ∧ (fw.decidePkt p now).2.1.accept = true ∧
        (fw.happen now event).conns = (fw.commit p (fw.classify p now) now).2.conns := by
  have filtered : ∀ p, (fw.filter p now true).2.conns = fw.conns ∨
      fw.disabled = false ∧ (fw.decidePkt p now).2.1.accept = true ∧
        (fw.filter p now true).2.conns = (fw.commit p (fw.classify p now) now).2.conns := by
    intro p
    cases disabled : fw.disabled with
    | true => exact .inl (by simp [filter, disabled])
    | false => ?_
    obtain ⟨-, alike⟩ := filter_alike disabled p now
    cases accepted : (fw.decidePkt p now).2.1.accept with
    | false => exact .inl (by simpa [remembered, accepted] using alike.conns)
    | true =>
      refine .inr ⟨rfl, rfl, ?_⟩
      rw [alike.conns, remembered, if_pos accepted, (decidePkt_accept accepted).1]
  cases event with
  | packet p =>
    rcases filtered p with same | moved
    · exact .inl same
    · exact .inr (.inr ⟨p, rfl, moved⟩)
  | admin op => ?_
  cases op with
  | probe probe =>
    by_cases looks : probe.commit = 0
    · refine .inl ?_
      simp only [happen, admin, looks, filter]
      simp only [ne_eq, not_true_eq_false, decide_false, Bool.not_false, if_true]
      split <;> rfl
    · rcases filtered probe.pkt with same | moved
      · exact .inl (by simpa [happen, admin, looks] using same)
      · refine .inr (.inr ⟨probe.pkt, by simp [Event.pkt?, looks], ?_⟩)
        simpa [happen, admin, looks] using moved
  | flushConns => exact .inr (.inl rfl)
  | lock | loadConfig text | addRule text pos | delRule idx | flushRules | setPolicy dir accept
  | setEnabled on =>
    refine .inl ?_
    simp only [happen]
    split
    · rename_i changed done
      exact edit_conns rfl done
    · rfl

/-- A step keeps to the bound, unless a finished flow is replaced from outside when it is
reached. -/
theorem happen_bounded (few : fw.halfOpenInbound now ≤ halfOpenMax)
    (guarded : fw.Replaces now event → fw.halfOpenInbound now < halfOpenMax) :
    (fw.happen now event).halfOpenInbound now ≤ halfOpenMax := by
  rw [halfOpenInbound_eq]
  rcases fw.happen_conns now event with same | empty | ⟨p, remembers, enabled, accepted, moved⟩
  · rw [same]
    exact few
  · rw [empty, Table.count_eq_zero.mpr fun _ => rfl]
    exact Nat.zero_le _
  rw [moved, ← halfOpenInbound_eq]
  by_cases replaced : p.dir = .inbound ∧ ∃ idx, fw.classify p now = .replace idx
  · obtain ⟨inbound, idx, replaced⟩ := replaced
    have room := guarded ⟨enabled, p, remembers, accepted, inbound, idx, replaced⟩
    rw [replaced, commit_replace replaced inbound]
    exact room
  · exact commit_bounded (decidePkt_accept accepted).2 few fun inbound idx replaced' =>
      replaced ⟨inbound, idx, replaced'⟩

/-- A replacement from outside adds one to the count. -/
theorem happen_replaces (replaces : fw.Replaces now event) :
    (fw.happen now event).halfOpenInbound now = fw.halfOpenInbound now + 1 := by
  obtain ⟨enabled, p, remembers, accepted, inbound, idx, replaced⟩ := replaces
  have filtered : (fw.filter p now true).2.conns = (fw.commit p (.replace idx) now).2.conns := by
    obtain ⟨-, alike⟩ := filter_alike enabled p now
    rw [alike.conns, remembered, if_pos accepted, (decidePkt_accept accepted).1, replaced]
  have moved : (fw.happen now event).conns = (fw.commit p (.replace idx) now).2.conns := by
    cases event with
    | packet q =>
      cases remembers
      exact filtered
    | admin op => ?_
    cases op with
    | probe probe =>
      simp only [Event.pkt?] at remembers
      split at remembers
      · cases remembers
      · rename_i commits
        cases remembers
        simpa [happen, admin, commits] using filtered
    | loadConfig | addRule | delRule | flushRules | setPolicy | setEnabled | lock | flushConns =>
      cases remembers
  rw [halfOpenInbound_eq, moved, ← halfOpenInbound_eq, commit_replace replaced inbound]

/-- What happens, one event after another. -/
def happenAll (fw : Firewall) (trace : List (Event × UInt32)) : Firewall :=
  trace.foldl (fun fw entry => fw.happen entry.2 entry.1) fw

/-- The clock brings no flow back that had run out. It would after 2 ^ 31 ticks. -/
def Onward (fw : Firewall) (last : UInt32) : List (Event × UInt32) → Prop
  | [] => True
  | (event, now) :: rest =>
    (∀ i, (fw.conns i).live now = true → (fw.conns i).live last = true) ∧
      Onward (fw.happen now event) now rest

/-- After every event the half-open flows are within the bound. -/
def Bounded (fw : Firewall) : List (Event × UInt32) → Prop
  | [] => True
  | (event, now) :: rest =>
    (fw.happen now event).halfOpenInbound now ≤ halfOpenMax ∧ Bounded (fw.happen now event) rest

/-- Finished flows are replaced from outside only below the bound. -/
def Guarded (fw : Firewall) : List (Event × UInt32) → Prop
  | [] => True
  | (event, now) :: rest =>
    (fw.Replaces now event → fw.halfOpenInbound now < halfOpenMax) ∧
      Guarded (fw.happen now event) rest

/-- As time passes there are no more half-open flows. -/
theorem halfOpenInbound_later
    (onward : ∀ i, (fw.conns i).live now = true → (fw.conns i).live last = true) :
    fw.halfOpenInbound now ≤ fw.halfOpenInbound last := by
  refine Table.count_mono fun i open_ => ?_
  simp only [Bool.and_eq_true] at open_ ⊢
  exact ⟨⟨⟨onward i open_.1.1.1, open_.1.1.2⟩, open_.1.2⟩, open_.2⟩

/-- The bound holds all along exactly if no finished flow is replaced at it. -/
theorem bounded_iff_guarded (few : fw.halfOpenInbound last ≤ halfOpenMax)
    (onward : fw.Onward last trace) : fw.Bounded trace ↔ fw.Guarded trace := by
  induction trace generalizing fw last with
  | nil => exact Iff.rfl
  | cons entry rest ih =>
    obtain ⟨event, now⟩ := entry
    obtain ⟨here, later⟩ := onward
    have few : fw.halfOpenInbound now ≤ halfOpenMax := (halfOpenInbound_later here).trans few
    constructor
    · rintro ⟨bounded, kept⟩
      refine ⟨fun replaces => ?_, (ih bounded later).mp kept⟩
      rw [happen_replaces replaces] at bounded
      exact bounded
    · rintro ⟨guarded, kept⟩
      have bounded := happen_bounded few guarded
      exact ⟨bounded, (ih bounded later).mpr kept⟩

/-- So it does when the next event comes. -/
theorem Guarded.next (guarded : fw.Guarded trace) (few : fw.halfOpenInbound last ≤ halfOpenMax)
    (onward : fw.Onward last (trace ++ [(event, now)])) :
    (fw.happenAll trace).halfOpenInbound now ≤ halfOpenMax := by
  induction trace generalizing fw last with
  | nil => exact (halfOpenInbound_later onward.1).trans few
  | cons entry rest ih =>
    obtain ⟨earlier, then_⟩ := entry
    obtain ⟨here, later⟩ := onward
    have few : fw.halfOpenInbound then_ ≤ halfOpenMax := (halfOpenInbound_later here).trans few
    exact ih guarded.2 (happen_bounded few guarded.1) later

/-- Whom the verdict names as the reason: the cap is for packets from outside, and the table is full
only of live flows. -/
theorem judge_reason (fw : Firewall) (p : Pkt) (cls : Cls) (now : UInt32) :
    ((fw.judge p cls now).1.reason = .halfOpen → p.dir = .inbound) ∧
      ((fw.judge p cls now).1.reason = .tableFull → fw.hasFreeSlot now = false) := by
  unfold judge
  -- Only two branches name these reasons, each under its own test.
  cases cls
  all_goals
    dsimp only
    repeat' split
    all_goals refine ⟨fun why => ?_, fun why => ?_⟩
    all_goals first
      | (cases why; done)
      | simp_all

theorem filter_reason (p : Pkt) (now : UInt32) :
    ((fw.filter p now true).1.reason = .halfOpen → p.dir = .inbound) ∧
      ((fw.filter p now true).1.reason = .tableFull → fw.hasFreeSlot now = false) := by
  have decided : ((fw.decidePkt p now).2.1.reason = .halfOpen → p.dir = .inbound) ∧
      ((fw.decidePkt p now).2.1.reason = .tableFull → fw.hasFreeSlot now = false) := by
    unfold decidePkt
    split
    · split
      · exact ⟨nofun, nofun⟩
      · exact fw.judge_reason p _ now
    all_goals exact ⟨nofun, nofun⟩
  unfold filter
  split
  · exact ⟨nofun, nofun⟩
  · exact decided

/-- Where there is no free slot, whatever is not half-open from outside makes up the rest. -/
theorem count_others (crowded : fw.hasFreeSlot now = false) :
    Table.count (fun c => c.live now && !c.halfOpen now) fw.conns + fw.halfOpenInbound now
      = maxConns := by
  have live : ∀ i, (fw.conns i).live now = true := by
    intro i
    have none : Table.first? (fun c : Conn => !c.live now) fw.conns = none := by
      simpa [hasFreeSlot] using crowded
    simpa using Table.first?_eq_none none i
  have total := List.length_eq_countP_add_countP (l := List.finRange maxConns)
    fun i => (fw.conns i).halfOpen now
  rw [List.length_finRange, Nat.add_comm] at total
  refine Eq.trans ?_ total.symm
  simp [halfOpenInbound_eq, Table.count, live]

end Firewall

open Firewall

/-- From boot, over any trace of packets and operations of the administrator: the half-open flows
from outside stay within the bound exactly if finished flows are not replaced from outside at it. A
packet of ours is never refused for their number, and where it finds the table full, they are not
what fills it. -/
theorem half_open_bounded (trace : List (Event × UInt32)) (onward : Firewall.init.Onward 0 trace) :
    (Firewall.init.Bounded trace ↔ Firewall.init.Guarded trace) ∧
    ∀ (p : Pkt) (now : UInt32), p.dir = .outbound →
      ((Firewall.init.happenAll trace).filter p now true).1.reason ≠ .halfOpen ∧
      (Firewall.init.Bounded trace → Firewall.init.Onward 0 (trace ++ [(.packet p, now)]) →
        ((Firewall.init.happenAll trace).filter p now true).1.reason = .tableFull →
        maxConns - halfOpenMax ≤ Table.count (fun c => c.live now && !c.halfOpen now)
          (Firewall.init.happenAll trace).conns) := by
  have few : Firewall.init.halfOpenInbound 0 ≤ halfOpenMax := by
    decide +kernel
  have iff := bounded_iff_guarded few onward
  refine ⟨iff, fun p now outbound => ⟨fun capped => ?_, fun bounded next full => ?_⟩⟩
  · have inbound := (filter_reason p now).1 capped
    rw [outbound] at inbound
    cases inbound
  · have crowded := (filter_reason p now).2 full
    have others := count_others crowded
    have within := (iff.mp bounded).next few next
    omega

/-- A SYN from outside, from one of many ports. -/
def sampleSyn (port : Nat) : Event × UInt32 :=
  (.packet
    { dir := .inbound, proto := protoTcp, src := 0x01020304, dst := 0x0A00020F,
      sport := .ofNat port, dport := 80, flags := tcpSyn }, 0)

theorem half_open_bounded_syn :
    let trace : List (Event × UInt32) := [(.admin (.setPolicy .inbound true), 0), sampleSyn 1000]
    (Firewall.init.happenAll trace).halfOpenInbound 0 = 1 ∧
      (Firewall.init.Bounded trace ↔ Firewall.init.Guarded trace) := by
  intro trace
  -- All of it happens at one clock value.
  have onward : Firewall.init.Onward 0 trace :=
    ⟨fun _ live => live, fun _ live => live, trivial⟩
  exact ⟨by decide +kernel, (half_open_bounded trace onward).1⟩

/-- One connection is begun and broken off, others fill the bound, and the first is begun again. -/
theorem half_open_exceeded :
    let trace : List (Event × UInt32) :=
      [(.admin (.setPolicy .inbound true), 0), sampleSyn 1000,
        (.packet
          { dir := .inbound, proto := protoTcp, src := 0x01020304, dst := 0x0A00020F,
            sport := 1000, dport := 80, flags := tcpRst }, 0)]
      ++ (List.range 64).map (fun i => sampleSyn (2000 + i)) ++ [sampleSyn 1000]
    (Firewall.init.happenAll trace).halfOpenInbound 0 = 65 := by
  decide +kernel

end NovaOs.Fw
