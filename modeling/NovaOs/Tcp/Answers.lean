import NovaOs.Tcp.Receive

/-! What a connection takes of a segment, which of them it answers, and what it takes behind a
FIN. -/

namespace NovaOs.Tcp

open List

/-- The segment carries data that starts where the last data ended, and there is space for some. -/
def TcpConn.takesData (c : TcpConn) (seg : Inbound) : Bool :=
  !seg.payload.isEmpty && seg.seq == c.recvNext && c.recvBuf.len < recvBufCap

/-- The segment carries a FIN, and everything before it was taken. -/
def TcpConn.takesFin (c : TcpConn) (seg : Inbound) : Bool :=
  seg.hasFin && seg.seq + UInt32.ofNat seg.payload.length == c.recvNext

section Segments

variable {e : Engine} {i : Slot} {seg : Inbound} {now : UInt32} {c : TcpConn}

/-- An acknowledgement is about the other direction. -/
theorem acknowledge_receives (c : TcpConn) (seg : Inbound) (now : UInt32) :
    (c.acknowledge seg now).recvNext = c.recvNext ∧
      (c.acknowledge seg now).recvBuf = c.recvBuf := by
  have acked := acknowledge_acked c seg now
  generalize c.acknowledge seg now = after at acked ⊢
  cases acked <;> exact ⟨rfl, rfl⟩

theorem acceptFin_recvBuf : (c.acceptFin seg now).1.recvBuf = c.recvBuf := by
  have took := acceptFin_took c seg now
  generalize (c.acceptFin seg now).1 = after at took ⊢
  cases took <;> rfl

/-- Some data is taken exactly if the segment fits, and then as much as there is space for. -/
theorem acceptData_takes (c : TcpConn) (seg : Inbound) :
    (c.acceptData seg).2 = (c.inUse && c.takesData seg) ∧
      (c.acceptData seg).1.recvBuf.contents = c.recvBuf.contents
        ++ (if c.inUse && c.takesData seg then seg.payload.take (recvBufCap - c.recvBuf.len)
          else []) ∧
      ((c.inUse && c.takesData seg) = false → (c.acceptData seg).1 = c) := by
  unfold TcpConn.acceptData
  by_cases fits : (c.inUse && !seg.payload.isEmpty && seg.seq == c.recvNext) = true
  · -- The segment is in its place, and the space that is left decides.
    have takes : (c.inUse && c.takesData seg) = decide (c.recvBuf.len < recvBufCap) := by
      simp only [TcpConn.takesData, ← Bool.and_assoc, fits, Bool.true_and]
    have data : 0 < seg.payload.length := by
      simp only [Bool.and_eq_true, Bool.not_eq_true', isEmpty_eq_false_iff] at fits
      exact length_pos_iff.mpr fits.1.2
    rw [if_pos fits, takes]
    dsimp only
    rw [Ring.contents_write]
    by_cases room : c.recvBuf.len < recvBufCap
    · rw [decide_eq_true room, if_pos rfl]
      refine ⟨decide_eq_true ?_, rfl, nofun⟩
      change 0 < min (recvBufCap - c.recvBuf.len) seg.payload.length
      omega
    have full : recvBufCap - c.recvBuf.len = 0 := by omega
    have nothing : c.recvBuf.write seg.payload = (0, c.recvBuf) := by
      simp [Ring.write, full, Ring.store]
    rw [decide_eq_false room, nothing, full, take_zero]
    exact ⟨rfl, rfl, fun _ => by simp⟩
  · have takes : (c.inUse && c.takesData seg) = false := by
      simp only [TcpConn.takesData, ← Bool.and_assoc, Bool.not_eq_true _ ▸ fits, Bool.false_and]
    rw [if_neg fits, takes]
    simp

/-- A connection past its handshake acknowledges the segments of which it takes something. -/
theorem transfer_answers (c : TcpConn) (seg : Inbound) (now : UInt32) :
    (c.transfer seg now).2
        = ((c.acknowledge seg now).inUse && (c.takesData seg || c.takesFin seg)) ∧
      (c.transfer seg now).1.recvBuf.contents = c.recvBuf.contents
        ++ (if (c.acknowledge seg now).inUse && c.takesData seg then
          seg.payload.take (recvBufCap - c.recvBuf.len) else []) := by
  obtain ⟨next, buffer⟩ := acknowledge_receives c seg now
  simp only [TcpConn.transfer]
  generalize c.acknowledge seg now = acked at next buffer ⊢
  obtain ⟨took, contents, none_⟩ := acceptData_takes acked seg
  have same : acked.takesData seg = c.takesData seg ∧ acked.takesFin seg = c.takesFin seg := by
    simp only [TcpConn.takesData, TcpConn.takesFin, next, buffer, and_self]
  rw [same.1] at took contents none_
  rw [buffer] at contents
  refine ⟨?_, by rw [acceptFin_recvBuf]; exact contents⟩
  cases taken : acked.inUse && c.takesData seg with
  | true =>
    rw [taken] at took
    simp only [Bool.and_eq_true] at taken
    simp [took, taken]
  | false => ?_
  -- No data was taken, so that the FIN is looked at with the same number expected.
  rw [taken] at took none_
  rw [none_ rfl, took, Bool.false_or, Bool.and_or_distrib_left, taken, Bool.false_or, ← same.2]
  simp only [TcpConn.acceptFin, TcpConn.takesFin, Bool.and_assoc]
  split
  · rename_i fits
    simp only [fits]
  · rename_i fits
    exact (Bool.not_eq_true _ ▸ fits).symm

/-- The handshake is over and the segment is no reset: some of it is taken, and it is answered. -/
def Engine.answers (e : Engine) (i : Slot) (seg : Inbound) (now : UInt32) : Bool :=
  !seg.hasRst && (((e.conns i).acknowledge seg now).inUse
    && ((e.conns i).takesData seg || (e.conns i).takesFin seg))

theorem deliver_answers (past : (e.conns i).Past) :
    (e.deliver i seg now).1 = if e.answers i seg now then .ack i else .none := by
  rw [Engine.deliver, Engine.answers, ← (transfer_answers (e.conns i) seg now).1]
  by_cases rst : seg.hasRst = true
  · simp [rst]
  · simp [rst, past.1, past.2]

end Segments

/--
A segment with data or a FIN that reaches a connection past its handshake is acknowledged exactly if
some of it is taken, and then with the number that is expected next and the window there is.
-/
theorem segment_acknowledged_iff {e : Engine} {i : Slot} {srcIp : UInt32} {payload : Bytes}
    {seg : Inbound} (mine : e.addressee srcIp payload = some (i, seg)) (past : (e.conns i).Past)
    (now : UInt32) :
    ((e.handlePacket srcIp payload now).1 = .ack i ↔ e.answers i seg now = true) ∧
      ((e.handlePacket srcIp payload now).1 = .ack i ∨
        (e.handlePacket srcIp payload now).1 = .none) ∧
      let after := (e.handlePacket srcIp payload now).2
      (after.sendAckOnly i).ack = (after.conns i).recvNext ∧
        (after.sendAckOnly i).window = (after.conns i).advertisedWindow ∧
        (after.sendAckOnly i).flags = flagAck := by
  rw [handlePacket_delivers mine]
  refine ⟨?_, ?_, rfl, rfl, rfl⟩
  · rw [deliver_answers past]
    cases e.answers i seg now <;> simp
  · rw [deliver_answers past]
    split
    · exact .inl rfl
    · exact .inr rfl

/-- The first two bytes of the peer are taken and acknowledged. -/
theorem segment_acknowledged_hi :
    (sampleEngine.handlePacket 7 samplePacket 5).1 = .ack 0 ∧
      ((sampleEngine.handlePacket 7 samplePacket 5).2.sendAckOnly 0).ack = 3 := by
  have mine : sampleEngine.addressee 7 samplePacket
      = some (0, ⟨9, 80, 1, 1, 0x10, ascii "hi"⟩) := by decide
  have acknowledged := segment_acknowledged_iff mine ⟨by decide, by decide⟩ 5
  refine ⟨acknowledged.1.mpr (by decide), ?_⟩
  rw [acknowledged.2.2.1]
  decide

/-- When the same segment comes again, because its acknowledgement was lost, there is no answer. -/
theorem duplicate_unanswered :
    let after := (sampleEngine.handlePacket 7 samplePacket 5).2
    after.addressee 7 samplePacket = some (0, ⟨9, 80, 1, 1, 0x10, ascii "hi"⟩) ∧
      (after.conns 0).state = .established ∧ (after.handlePacket 7 samplePacket 6).1 = .none := by
  decide

/-- A packet of which connection `i` puts data into its buffer. -/
def Engine.fills (e : Engine) (i : Slot) : Event → Bool
  | .packet srcIp payload now =>
    match e.addressee srcIp payload with
    | none => false
    | some (idx, seg) =>
      idx == i && !seg.hasRst && (e.conns i).state != .synSent
        && (e.conns i).state != .synReceived && ((e.conns i).acknowledge seg now).inUse
        && (e.conns i).takesData seg
  | _ => false

section Buffers

variable {e : Engine} {i : Slot} {ev : Event}

theorem deliver_recvBuf (plain : (e.conns i).isListener = false) (seg : Inbound) (now : UInt32) :
    ((e.deliver i seg now).2.conns i).recvBuf.contents = (e.conns i).recvBuf.contents
      ++ (if !seg.hasRst && (e.conns i).state != .synSent && (e.conns i).state != .synReceived
            && ((e.conns i).acknowledge seg now).inUse && (e.conns i).takesData seg
        then seg.payload.take (recvBufCap - (e.conns i).recvBuf.len) else []) := by
  rw [Engine.deliver]
  by_cases rst : seg.hasRst = true
  · simp [rst]
  rw [if_neg rst]
  by_cases sent : (e.conns i).state = .synSent
  · rw [if_pos sent]
    split <;> simp [TcpConn.handshaken, sent]
  rw [if_neg sent]
  by_cases received : (e.conns i).state = .synReceived
  · -- Neither the connection nor its listener gets data with the handshake.
    rw [if_pos received]
    split
    · simp only [Engine.completeHandshake]
      split
      · simp [TcpConn.handshaken, received]
      split
      · rename_i l _ room
        have apart : i ≠ l := by
          rintro rfl
          simp [TcpConn.handshaken, plain] at room
        simp [apart, TcpConn.handshaken, received]
      · simp [TcpConn.handshaken, received]
    · simp [received]
  · rw [if_neg received, Engine.set_conns, Function.update_self,
      (transfer_answers (e.conns i) seg now).2]
    simp [rst, sent, received]

/-- The buffer of a connection that stays in use grows with such packets and by nothing else. -/
theorem step_fills (live : (e.conns i).inUse) (alive : ((e.step ev).2.conns i).inUse) :
    (e.fills i ev = true → ∃ data, data ≠ [] ∧ ((e.step ev).2.conns i).recvBuf.contents
        = (e.conns i).recvBuf.contents ++ data) ∧
      (e.fills i ev = false → ((e.step ev).2.conns i).recvBuf.contents <:+
        (e.conns i).recvBuf.contents) := by
  by_cases mine : ∃ srcIp payload now seg, ev = .packet srcIp payload now ∧
      e.addressee srcIp payload = some (i, seg)
  · obtain ⟨srcIp, payload, now, seg, rfl, mine⟩ := mine
    have contents := deliver_recvBuf (addressee_live mine).2 seg now
    rw [packet_delivers mine, contents]
    simp only [Engine.fills, mine, beq_self_eq_true, Bool.true_and]
    split
    · rename_i fills
      refine ⟨fun _ => ⟨_, ?_, rfl⟩, fun never => absurd (never.symm.trans fills) (by decide)⟩
      simp only [TcpConn.takesData, Bool.and_eq_true, Bool.not_eq_true',
        isEmpty_eq_false_iff, decide_eq_true_eq] at fills
      rw [Ne, take_eq_nil_iff]
      exact not_or.mpr ⟨by omega, fills.2.1.1⟩
    · rename_i other
      exact ⟨fun fills => absurd fills other, fun _ => by rw [append_nil]⟩
  · -- Nothing else writes to the buffer; reading takes bytes off its front.
    have none_ : e.fills i ev = false := by
      cases ev with
      | packet srcIp payload now =>
        simp only [Engine.fills]
        cases owner : e.addressee srcIp payload with
        | none => rfl
        | some pair =>
          have other : pair.1 ≠ i := fun same => mine ⟨srcIp, payload, now, pair.2, rfl, by
            rw [owner, ← same]⟩
          simp [other]
      | _ => rfl
    refine ⟨fun fills => absurd (none_.symm.trans fills) (by decide), fun _ => ?_⟩
    have change := step_change e ev i
    generalize (e.step ev).2.conns i = after at change alive ⊢
    cases change with
    | opened free | passive free => cases free.symm.trans live
    | dropped _ _ gone => cases gone.symm.trans alive
    | read =>
      rw [Ring.contents_consume]
      exact drop_suffix _ _
    | transferred owned | established owned | queued owned =>
      exact absurd ⟨_, _, _, _, rfl, owned⟩ mine
    | aged aged => cases aged <;> exact suffix_rfl
    | sent _ _ _ sent => cases sent <;> exact suffix_rfl
    | _ => exact suffix_rfl

/-- Bytes read were in the buffer. -/
theorem delivered_nil (empty : (e.conns i).recvBuf.contents = []) :
    delivered i ev (e.step ev).1 = [] := by
  have change := step_change e ev i
  generalize (e.step ev).2.conns i = after at change
  cases change with
  | same quiet => exact quiet.delivered
  | read _ _ _ bytes => simp [delivered, bytes, Ring.peek_eq, empty]
  | _ => rfl

end Buffers

/-- Sections one after another on a connection that stays in use, none of which fills its buffer. -/
inductive Ends (i : Slot) (e : Engine) : List Event → Engine → Prop
  | start : Ends i e [] e
  | step {evs : List Event} {now : Engine} (before : Ends i e evs now) {ev : Event}
      (alive : ((now.step ev).2.conns i).inUse) (ends : now.fills i ev = false) :
      Ends i e (evs ++ [ev]) (now.step ev).2

/--
After the peer's FIN a section puts data into the buffer exactly if it is a packet that carries data
from the number expected next on. While there is no such packet, what is in the buffer only gets
less, and once the end of the stream was reported nothing is read any more.
-/
theorem end_of_stream_final {i : Slot} {e : Engine} (live : (e.conns i).inUse)
    (ended : (e.conns i).peerFinReceived) {evs : List Event} {now : Engine}
    (run : Ends i e evs now) :
    ((now.conns i).inUse ∧ (now.conns i).peerFinReceived ∧
      (now.conns i).recvBuf.contents <:+ (e.conns i).recvBuf.contents) ∧
    (∀ ev, ((now.step ev).2.conns i).inUse →
      (((now.step ev).2.conns i).recvBuf.contents <:+ (now.conns i).recvBuf.contents ↔
        now.fills i ev = false)) ∧
    ((e.conns i).recvBuf.contents = [] → ∀ ev, delivered i ev (now.step ev).1 = []) := by
  have kept : (now.conns i).inUse ∧ (now.conns i).peerFinReceived ∧
      (now.conns i).recvBuf.contents <:+ (e.conns i).recvBuf.contents := by
    induction run with
    | start => exact ⟨live, ended, suffix_rfl⟩
    | step _ alive ends ih =>
      exact ⟨alive, fin_kept ih.1 alive ih.2.1, ((step_fills ih.1 alive).2 ends).trans ih.2.2⟩
  refine ⟨kept, fun ev alive => ⟨fun less => ?_, (step_fills kept.1 alive).2⟩, fun empty ev => ?_⟩
  · by_contra fills
    obtain ⟨data, some_, grown⟩ := (step_fills kept.1 alive).1 (by simpa using fills)
    have longer := less.length_le
    rw [grown, length_append] at longer
    exact some_ (eq_nil_of_length_eq_zero (by omega))
  · have nothing : (now.conns i).recvBuf.contents = [] := by
      have rest := kept.2.2
      rw [empty] at rest
      exact eq_nil_of_suffix_nil rest
    exact delivered_nil nothing

/-- The FIN of the sample peer, and two bytes that it sends behind it. -/
def peerFin : Bytes := [0, 9, 0, 80, 0, 0, 0, 1, 0, 0, 0, 1, 0x50, 0x11, 0, 0, 0, 0, 0, 0]
def behindFin : Bytes :=
  [0, 9, 0, 80, 0, 0, 0, 2, 0, 0, 0, 1, 0x50, 0x10, 0, 0, 0, 0, 0, 0] ++ ascii "hi"

/-- A FIN that comes a second time changes nothing about the end of the stream. -/
theorem end_of_stream_final_again :
    let ended := (sampleEngine.step (.packet 7 peerFin 5)).2
    (ended.step (.recv 0 16)).1.rc = some 0 ∧
      delivered 0 (.recv 0 16) ((ended.step (.packet 7 peerFin 6)).2.step (.recv 0 16)).1 = [] := by
  refine ⟨by decide, ?_⟩
  have run : Ends 0 (sampleEngine.step (.packet 7 peerFin 5)).2 ([] ++ [.packet 7 peerFin 6]) _ :=
    Ends.start.step (by decide) (by decide)
  exact (end_of_stream_final (by decide) (by decide) run).2.2 (by decide) _

/-- The end of the stream is reported, and then two bytes are read from it. -/
theorem data_behind_fin :
    let ended := (sampleEngine.step (.packet 7 peerFin 5)).2
    (ended.step (.recv 0 16)).1.rc = some 0 ∧ (ended.conns 0).peerFinReceived = true ∧
      (((ended.step (.recv 0 16)).2.step (.packet 7 behindFin 6)).2.step (.recv 0 16)).1.bytes
        = ascii "hi" := by
  decide

end NovaOs.Tcp
