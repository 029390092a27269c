import NovaOs.Config.Text
import NovaOs.Tcp.Steps

/-! What an application reads from a connection is what the peer wrote, in order. -/

namespace NovaOs.Tcp

variable {base : UInt32}

open List

/-- Places less than one round apart are equal once their sequence numbers are. -/
theorem place_eq {a b : Nat} (same : base + UInt32.ofNat a = base + UInt32.ofNat b)
    (below : a < b + 2 ^ 32) (above : b < a + 2 ^ 32) : a = b := by
  have residues := congrArg UInt32.toNat ((UInt32.add_right_inj base).mp same)
  simp only [UInt32.toNat_ofNat'] at residues
  omega

/-- The right edge of the window a connection advertises. -/
def TcpConn.rightEdge (c : TcpConn) : UInt32 :=
  c.recvNext + c.advertisedWindow.toUInt32

/--
A segment agrees with a stream of bytes that starts behind the peer's first sequence number.

Its place in the stream is within half a round of the `received` bytes that were taken, so that
its sequence number says which place that is. A FIN stands behind the last byte.
-/
def Agrees (stream : Bytes) (irs : UInt32) (received : Nat) (seg : Inbound) : Prop :=
  seg.payload ≠ [] ∨ seg.hasFin → ∃ offset, seg.seq = irs + 1 + UInt32.ofNat offset ∧
    received ≤ offset + 2 ^ 31 ∧ offset + seg.payload.length ≤ received + 2 ^ 31 ∧
    seg.payload <+: stream.drop offset ∧
    (seg.hasFin → offset + seg.payload.length = stream.length)

/-- A connection that has taken a front part of the stream, `got` of it read by its application. -/
structure Follows (stream : Bytes) (irs : UInt32) (got : Bytes) (c : TcpConn) : Prop where
  past : c.Past
  taken : got ++ c.recvBuf.contents <+: stream
  next : c.recvNext = irs + 1 + UInt32.ofNat (got.length + c.recvBuf.len)
    + (if c.peerFinReceived then 1 else 0)
  ended : c.peerFinReceived → got.length + c.recvBuf.len = stream.length

section States

variable {c after : TcpConn} {seg : Inbound} {segment : Segment}

theorem Acked.recvBuf (acked : Acked c seg after) : after.recvBuf = c.recvBuf := by
  cases acked <;> rfl

/-- Taking data never makes the buffer shorter, nor longer than it can be. -/
theorem TookData.grows (took : TookData c seg after) :
    c.recvBuf.len ≤ after.recvBuf.len ∧ after.recvBuf.len ≤ recvBufCap := by
  refine ⟨?_, after.recvBuf.len_le⟩
  cases took with
  | none => exact Nat.le_refl _
  | some => exact Nat.le_add_right _ _

end States

/-- Going on from a place is going further from the base. -/
theorem place_add (base : UInt32) (a b : Nat) :
    base + UInt32.ofNat a + UInt32.ofNat b = base + UInt32.ofNat (a + b) := by
  rw [UInt32.add_assoc, UInt32.ofNat_add]

theorem place_succ {a : Nat} : base + UInt32.ofNat a + 1 = base + UInt32.ofNat (a + 1) :=
  place_add base a 1

namespace Follows

variable {stream got : Bytes} {irs : UInt32} {c after : TcpConn} {seg : Inbound}

variable (follows : Follows stream irs got c)

include follows

/-- Whatever leaves the receiving half alone leaves it following the stream. -/
theorem keep (past : after.Past) (buf : after.recvBuf = c.recvBuf)
    (next : after.recvNext = c.recvNext) (fin : after.peerFinReceived = c.peerFinReceived) :
    Follows stream irs got after where
  past := past
  taken := by rw [buf]; exact follows.taken
  next := by rw [next, buf, fin]; exact follows.next
  ended := by rw [buf, fin]; exact follows.ended

theorem acked (acked : Acked c seg after) : Follows stream irs got after := by
  have past := acked.past follows.past
  cases acked with
  | old => exact follows
  | new => exact follows.keep past rfl rfl rfl

/-- Data that starts where the last data ended is the next part of the stream. -/
theorem data (agrees : Agrees stream irs (got.length + c.recvBuf.len) seg)
    (took : TookData c seg after) : Follows stream irs got after := by
  cases took with
  | none => exact follows
  | some start data => ?_
  obtain ⟨offset, seq, low, high, part, _⟩ := agrees (.inl data)
  have some_data : 0 < seg.payload.length := length_pos_iff.mpr data
  have inside : offset + seg.payload.length ≤ stream.length := by
    have short := part.length_le
    rw [length_drop] at short
    omega
  rw [follows.next] at start
  -- Behind the FIN there is no data, since the stream ends there.
  have open' : c.peerFinReceived = false := by
    by_contra ended
    have ended : c.peerFinReceived = true := by simpa using ended
    have place := start.symm.trans seq
    rw [if_pos ended, place_succ] at place
    have equal := place_eq place (by omega) (by omega)
    have full := follows.ended ended
    omega
  rw [open'] at start
  have place := seq.symm.trans start
  simp only [Bool.false_eq_true, if_false, UInt32.add_zero] at place
  have here := place_eq place (by omega) (by omega)
  have written := c.recvBuf.contents_write seg.payload
  refine ⟨follows.past, ?_, ?_, ?_⟩
  · -- What is there ends at the offset, and what is added stands behind the offset.
    have before : got ++ c.recvBuf.contents = stream.take offset := by
      have prefixes := prefix_iff_eq_take.mp follows.taken
      rwa [length_append, Ring.contents_length, ← here] at prefixes
    rw [written, ← append_assoc, before]
    have more : seg.payload.take (recvBufCap - c.recvBuf.len) <+: stream.drop offset :=
      ( take_prefix _ _).trans part
    obtain ⟨rest, split⟩ := more
    exact ⟨rest, by rw [append_assoc, split, take_append_drop]⟩
  · have longer : (c.recvBuf.write seg.payload).2.len
        = c.recvBuf.len + (c.recvBuf.write seg.payload).1 := rfl
    simp only [longer, follows.next, open', Bool.false_eq_true, if_false, UInt32.add_zero]
    rw [place_add, Nat.add_assoc]
  · intro ended
    rw [show c.peerFinReceived = true from ended] at open'
    cases open'

/-- A FIN is taken where the stream ends, and only once. -/
theorem fin {received : Nat} (agrees : Agrees stream irs received seg)
    (near : received ≤ got.length + c.recvBuf.len ∧
      got.length + c.recvBuf.len ≤ received + recvBufCap) (took : TookFin c seg after) :
    Follows stream irs got after := by
  cases took with
  | none => exact follows
  | some flag last => ?_
  obtain ⟨offset, seq, low, high, _, atEnd⟩ := agrees (.inr flag)
  have end' := atEnd flag
  have cap : recvBufCap = 2048 := rfl
  rw [seq, place_add, follows.next] at last
  have open' : c.peerFinReceived = false := by
    by_contra ended
    have ended : c.peerFinReceived = true := by simpa using ended
    rw [if_pos ended, place_succ] at last
    have equal := place_eq last (by omega) (by omega)
    have full := follows.ended ended
    omega
  rw [open'] at last
  simp only [Bool.false_eq_true, if_false, UInt32.add_zero] at last
  have here := place_eq last (by omega) (by omega)
  refine ⟨finReceived_past follows.past, follows.taken, ?_, fun _ => here.symm.trans end'⟩
  rw [follows.next, open']
  simp only [Bool.false_eq_true, if_false, UInt32.add_zero, if_true]

/-- Reading moves bytes from the buffer to the application. -/
theorem read (maxLen : Nat) :
    Follows stream irs (got ++ c.recvBuf.peek 0 maxLen)
      { c with recvBuf := c.recvBuf.consume (c.recvBuf.peek 0 maxLen).length } := by
  have peeked : c.recvBuf.peek 0 maxLen = c.recvBuf.contents.take maxLen := by
    rw [Ring.peek_eq, drop_zero]
  have count : (c.recvBuf.peek 0 maxLen).length = min maxLen c.recvBuf.len := by
    rw [peeked, length_take, Ring.contents_length]
  have rest : (c.recvBuf.consume (c.recvBuf.peek 0 maxLen).length).contents
      = c.recvBuf.contents.drop (min maxLen c.recvBuf.len) := by
    rw [Ring.contents_consume, count]
  have all : c.recvBuf.contents.take maxLen
      = c.recvBuf.contents.take (min maxLen c.recvBuf.len) := by
    rw [← Ring.contents_length, ← take_eq_take_min]
  have length : (got ++ c.recvBuf.peek 0 maxLen).length
      + (c.recvBuf.consume (c.recvBuf.peek 0 maxLen).length).len
        = got.length + c.recvBuf.len := by
    rw [← Ring.contents_length (c.recvBuf.consume _), rest, length_append, count,
      length_drop, Ring.contents_length]
    omega
  refine ⟨follows.past, ?_, ?_, ?_⟩
  · rw [rest, peeked, all, append_assoc, take_append_drop]
    exact follows.taken
  · rw [length]
    exact follows.next
  · rw [length]
    exact follows.ended

end Follows

/-- A connection that is opened again, and so is no longer the one it was. -/
def Event.Connects (i : Slot) : Event → Prop
  | .connectBegin id _ _ _ _ => slotOf id = some i
  | _ => False

/-- A section in the life of the connection in slot `i`, with segments that agree with a stream. -/
structure Living (stream : Bytes) (irs : UInt32) (i : Slot) (e : Engine) (got : Bytes)
    (ev : Event) :
    Prop where
  alive : ((e.step ev).2.conns i).inUse
  kept : ¬ ev.Connects i
  agrees : ∀ srcIp payload now seg, ev = .packet srcIp payload now →
    e.addressee srcIp payload = some (i, seg) →
    Agrees stream irs (got.length + (e.conns i).recvBuf.len) seg

/-- Sections in the life of the connection in slot `i`, and the bytes read from it meanwhile. -/
inductive Receives (stream : Bytes) (irs : UInt32) (i : Slot) (start : Engine) :
    Engine → Bytes → Prop
  | start : Receives stream irs i start start []
  | step {e : Engine} {got : Bytes} {ev : Event} (before : Receives stream irs i start e got)
      (living : Living stream irs i e got ev) :
      Receives stream irs i start (e.step ev).2 (got ++ delivered i ev (e.step ev).1)

section Runs

variable {stream got : Bytes} {irs : UInt32} {i : Slot} {e : Engine} {ev : Event} {c : TcpConn}

/-- No section makes a connection leave the stream. -/
theorem Follows.step (follows : Follows stream irs got (e.conns i)) (live : (e.conns i).inUse)
    (living : Living stream irs i e got ev) :
    Follows stream irs (got ++ delivered i ev (e.step ev).1) ((e.step ev).2.conns i) := by
  obtain ⟨alive, kept, agrees⟩ := living
  have change := step_change e ev i
  generalize (e.step ev).1 = out at change ⊢
  generalize (e.step ev).2.conns i = after at change alive ⊢
  have past := follows.past
  cases change with
  | same quiet =>
    rw [quiet.delivered, append_nil]
    exact follows
  | opened free | passive free => cases free.symm.trans live
  | connecting slot => exact absurd slot kept
  | established _ state => exact absurd state past.1
  | queued _ state => exact absurd state past.2
  | dropped _ _ gone => cases gone.symm.trans alive
  | freed | abandoned | reset => cases alive
  | read slot _ _ bytes =>
    rw [delivered, if_pos slot, bytes]
    exact follows.read _
  | transferred mine _ ack data fin =>
    simp only [delivered, append_nil]
    have agree := agrees _ _ _ _ rfl mine
    have ackFollows := follows.acked ack
    have same := ack.recvBuf
    have grown := data.grows
    rw [same] at grown
    -- Taking data moves what is received by no more than the buffer holds.
    refine (ackFollows.data (by rw [same]; exact agree) data).fin agree ⟨?_, ?_⟩ fin
    · omega
    · omega
  | aged aged =>
    simp only [delivered, append_nil]
    cases aged <;> exact follows.keep past rfl rfl rfl
  | sent _ _ _ sent =>
    simp only [delivered, append_nil]
    cases sent with
    | data => exact follows.keep past rfl rfl rfl
    | fin => exact follows.keep (finSent_past past) rfl rfl rfl
  | listening | timedOut =>
    simp only [delivered, append_nil]
    exact follows.keep ⟨by simp, by simp⟩ rfl rfl rfl
  | bound | popped | buffered | closing | pushed =>
    simp only [delivered, append_nil]
    exact follows.keep past rfl rfl rfl

theorem fin_kept (live : (e.conns i).inUse) (alive : ((e.step ev).2.conns i).inUse)
    (ended : (e.conns i).peerFinReceived) : ((e.step ev).2.conns i).peerFinReceived := by
  have change := step_change e ev i
  generalize (e.step ev).2.conns i = after at change alive ⊢
  cases change with
  | opened free | passive free => cases free.symm.trans live
  | dropped _ _ gone => cases gone.symm.trans alive
  | transferred _ _ ack data fin =>
    cases ack <;> cases data <;> cases fin <;> first | exact ended | rfl
  | aged aged => cases aged <;> exact ended
  | sent _ _ _ sent => cases sent <;> exact ended
  | _ => exact ended

theorem delivered_length : (delivered i ev (e.step ev).1).length ≤ recvBufCap := by
  have change := step_change e ev i
  generalize (e.step ev).1 = out at change ⊢
  generalize (e.step ev).2.conns i = after at change
  cases change with
  | same quiet =>
    rw [quiet.delivered]
    exact Nat.zero_le _
  | read slot _ _ bytes =>
    have short := (e.conns i).recvBuf.len_le
    rw [delivered, if_pos slot, bytes, Ring.peek_eq, drop_zero, length_take, Ring.contents_length]
    omega
  | _ => exact Nat.zero_le _

/-- The window ends so far behind what the application has read. -/
theorem Follows.rightEdge (follows : Follows stream irs got c) :
    c.rightEdge = irs + 1 + UInt32.ofNat
      (got.length + recvBufCap + if c.peerFinReceived then 1 else 0) := by
  have short := c.recvBuf.len_le
  have window : c.advertisedWindow.toUInt32 = UInt32.ofNat (recvBufCap - c.recvBuf.len) := by
    apply UInt32.toNat_inj.mp
    have cap : recvBufCap = 2048 := rfl
    simp only [TcpConn.advertisedWindow, UInt16.toNat_toUInt32, UInt16.toNat_ofNat',
      UInt32.toNat_ofNat']
    omega
  have fin : (if c.peerFinReceived then 1 else 0 : UInt32)
      = UInt32.ofNat (if c.peerFinReceived then 1 else 0) := by split <;> rfl
  rw [TcpConn.rightEdge, follows.next, window, fin, place_add, place_add]
  congr 2
  omega

/-- A segment that acknowledges something advertises the window as it is. -/
theorem sent_window {seg : Segment} (sent : (e.step ev).1.sent = some (i, seg))
    (ack : seg.flags &&& flagAck ≠ 0) :
    seg.ack = (e.conns i).recvNext ∧ seg.window = (e.conns i).advertisedWindow := by
  cases ev with
  | sendSyn idx =>
    cases sent
    exact absurd (show flagSyn &&& flagAck = 0 by decide) ack
  | sendSynAck idx | sendAck idx =>
    cases sent
    exact ⟨rfl, rfl⟩
  | pollSend now =>
    have picked : (e.chooseSegment now ((range maxTcpConns).map e.pollSlot)).1
        = some (i, seg) := sent
    obtain ⟨after, chosen⟩ := chooseSegment_outgoing picked
    obtain ⟨_, _, _, sent⟩ := outgoing_sent chosen
    cases sent <;> exact ⟨rfl, rfl⟩
  | _ => cases sent

/-- A connection just established, with nothing received yet behind the peer's first number. -/
structure Fresh (irs : UInt32) (c : TcpConn) : Prop where
  live : c.inUse
  state : c.state = .established
  empty : c.recvBuf.len = 0
  next : c.recvNext = irs + 1
  going : c.peerFinReceived = false

theorem Fresh.follows (fresh : Fresh irs c) : Follows stream irs [] c where
  past := by rw [TcpConn.Past, fresh.state]; decide
  taken := by
    have nothing : c.recvBuf.contents = [] := by
      rw [← length_eq_zero_iff, Ring.contents_length, fresh.empty]
    rw [nothing]
    exact nil_prefix
  next := by
    rw [fresh.next, fresh.going, fresh.empty]
    simp
  ended := by simp [fresh.going]

theorem Receives.follows {start : Engine} (fresh : Fresh irs (start.conns i))
    (run : Receives stream irs i start e got) :
    (e.conns i).inUse ∧ Follows stream irs got (e.conns i) := by
  induction run with
  | start => exact ⟨fresh.live, fresh.follows⟩
  | step _ living ih => exact ⟨living.alive, ih.2.step ih.1 living⟩

/--
Bytes read from a connection are a front part of the peer's stream, whatever comes in and when.

Everything acknowledged was read or waits to be read, and the advertised window's right edge
moves forward only.
-/
theorem tcp_receive_integrity {start : Engine} (fresh : Fresh irs (start.conns i))
    (run : Receives stream irs i start e got) :
    got <+: stream ∧ Follows stream irs got (e.conns i) ∧
      ∀ ev, Living stream irs i e got ev →
        (∃ moved ≤ recvBufCap + 1, ((e.step ev).2.conns i).rightEdge
          = (e.conns i).rightEdge + UInt32.ofNat moved) ∧
        ∀ seg, (e.step ev).1.sent = some (i, seg) → seg.flags &&& flagAck ≠ 0 →
          seg.ack + seg.window.toUInt32 = (e.conns i).rightEdge := by
  obtain ⟨live, follows⟩ := run.follows fresh
  refine ⟨(prefix_append _ _).trans follows.taken, follows, ?_⟩
  intro ev living
  constructor
  · -- The edge moves with what is read, and by one for the FIN.
    have later := follows.step live living
    have short : (delivered i ev (e.step ev).1).length ≤ recvBufCap := delivered_length
    have kept := fin_kept live living.alive
    rw [later.rightEdge, follows.rightEdge, length_append]
    refine ⟨(delivered i ev (e.step ev).1).length
      + ((if ((e.step ev).2.conns i).peerFinReceived then 1 else 0)
        - if (e.conns i).peerFinReceived then 1 else 0), ?_, ?_⟩
    · split <;> split <;> omega
    · rw [place_add]
      congr 2
      cases was : (e.conns i).peerFinReceived with
      | false => simp; omega
      | true => simp [kept was]; omega
  · intro seg sent ack
    obtain ⟨next, window⟩ := sent_window sent ack
    rw [next, window]
    rfl

end Runs

/-- An engine whose first connection was just established with a peer. -/
def sampleEngine : Engine where
  conns := Function.update (fun _ => {}) 0
    { inUse := true
      state := .established
      localPort := 80
      remoteIp := 7
      remotePort := 9
      sendUnacked := 1
      recvNext := 1 }

/-- A segment of that peer that carries two bytes from the start of its stream on. -/
def samplePacket : Bytes :=
  [0, 9, 0, 80, 0, 0, 0, 1, 0, 0, 0, 1, 0x50, 0x10, 0, 0, 0, 0, 0, 0] ++ ascii "hi"

/-- Two bytes that come in are read, and are a front part of the stream. -/
theorem tcp_receive_integrity_hi :
    ∃ e, Receives (ascii "hi!") 0 0 sampleEngine e (ascii "hi") ∧ ascii "hi" <+: ascii "hi!" := by
  have first : Living (ascii "hi!") 0 0 sampleEngine [] (.packet 7 samplePacket 5) := by
    refine ⟨by decide, id, ?_⟩
    intro srcIp payload now seg same mine
    cases same
    have parsed : sampleEngine.addressee 7 samplePacket
        = some (0, ⟨9, 80, 1, 1, 0x10, ascii "hi"⟩) := by decide
    rw [parsed] at mine
    cases mine
    exact fun _ => ⟨0, by decide, by decide, by decide, by decide, by decide⟩
  have one := Receives.start.step first
  have second : Living (ascii "hi!") 0 0 (sampleEngine.step (.packet 7 samplePacket 5)).2 []
      (.recv 0 16) :=
    ⟨by decide, id, fun _ _ _ _ same => by cases same⟩
  have run := one.step second
  have bytes : ([] ++ delivered 0 (.packet 7 samplePacket 5)
      (sampleEngine.step (.packet 7 samplePacket 5)).1)
        ++ delivered 0 (.recv 0 16)
          ((sampleEngine.step (.packet 7 samplePacket 5)).2.step (.recv 0 16)).1 = ascii "hi" := by
    decide
  rw [bytes] at run
  exact ⟨_, run, (tcp_receive_integrity
    ⟨by decide, by decide, by decide, by decide, by decide⟩ run).1⟩

/-- A FIN in the place of the first byte, and the two bytes behind it: each payload agrees with the
stream, and what is read is no front part of it. -/
theorem fin_takes_place_of_byte :
    let header (seq flags : UInt8) : Bytes :=
      [0, 9, 0, 80, 0, 0, 0, seq, 0, 0, 0, 1, 0x50, flags, 0, 0, 0, 0, 0, 0]
    let ended := (sampleEngine.step (.packet 7 (header 1 0x11) 5)).2
    let behind := (ended.step (.packet 7 (header 2 0x10 ++ ascii "i!") 6)).2
    delivered 0 (.recv 0 16) (behind.step (.recv 0 16)).1 = ascii "i!" ∧
      (ascii "hi!").drop 1 = ascii "i!" ∧ ¬ascii "i!" <+: ascii "hi!" := by
  decide

end NovaOs.Tcp
