import NovaOs.Tcp.Receive

/-! What a connection sends is what its application wrote, and acknowledgements remove it. -/

namespace NovaOs.Tcp

open List

variable {base : UInt32} {wire : List Segment}

section Sequence

variable {a b : UInt32} {base : UInt32}

theorem toInt_sub : (a - b).toInt32.toInt
    = if 2 * (a - b).toNat < 2 ^ 32 then ((a - b).toNat : Int) else (a - b).toNat - 2 ^ 32 :=
  BitVec.toInt_eq_toNat_cond _

/-- Strictly past means ahead by less than half a round. -/
theorem seqGt_iff : seqGt a b ↔ 0 < (a - b).toNat ∧ (a - b).toNat < 2 ^ 31 := by
  have bound := (a - b).toNat_lt
  simp only [seqGt, Int32.lt_iff_toInt_lt, toInt_sub, Int32.toInt_zero, decide_eq_true_eq]
  split <;> omega

/-- How far one place is ahead of another. -/
theorem place_sub {m n : Nat} (order : m ≤ n) :
    base + UInt32.ofNat n - (base + UInt32.ofNat m) = UInt32.ofNat (n - m) := by
  have split : base + UInt32.ofNat n = base + UInt32.ofNat m + UInt32.ofNat (n - m) := by
    rw [place_add]
    congr 2
    omega
  rw [split, UInt32.add_comm, UInt32.add_sub_cancel]

/-- Places less than half a round apart compare as their distances from the base do. -/
theorem seqGt_place {m n : Nat} (near : n < m + 2 ^ 31) (back : m ≤ n + 2 ^ 31) :
    seqGt (base + UInt32.ofNat n) (base + UInt32.ofNat m) ↔ m < n := by
  rw [seqGt_iff]
  rcases Nat.le_total m n with order | order
  · rw [place_sub order, UInt32.toNat_ofNat']
    omega
  -- Ahead by a negative distance is ahead by more than half a round.
  have negative : base + UInt32.ofNat n - (base + UInt32.ofNat m) = - UInt32.ofNat (m - n) := by
    rw [← place_sub order, UInt32.neg_sub]
  rw [negative, UInt32.toNat_neg, UInt32.toNat_ofNat', show UInt32.size = 2 ^ 32 from rfl]
  omega

end Sequence

/-- The sequence number behind a segment, a FIN taking one number. -/
def Segment.endSeq (seg : Segment) : UInt32 :=
  seg.seq + UInt32.ofNat seg.data.length + (if seg.flags &&& flagFin ≠ 0 then 1 else 0)

/-- The highest sequence number transmitted, once one more segment was. -/
def sndMax (highest : UInt32) (seg : Segment) : UInt32 :=
  if seqGt seg.endSeq highest then seg.endSeq else highest

/-- The segments a section sends from slot `i`. -/
def transmitted (i : Slot) (out : Out) : List Segment :=
  match out.sent with
  | some (idx, seg) => if idx = i then [seg] else []
  | none => []

/-- A segment that ends within half a round of the highest number moves it as far as it reaches. -/
theorem sndMax_append {segment : Segment} {top place : Nat}
    (highest : wire.foldl sndMax base = base + UInt32.ofNat top)
    (ends : segment.endSeq = base + UInt32.ofNat place) (above : place < top + 2 ^ 31)
    (below : top ≤ place + 2 ^ 31) :
    (wire ++ [segment]).foldl sndMax base = base + UInt32.ofNat (max top place) := by
  have order : seqGt segment.endSeq (base + UInt32.ofNat top) ↔ top < place := by
    rw [ends]
    exact seqGt_place above below
  rw [foldl_append, foldl_cons, foldl_nil, highest, sndMax]
  rcases Nat.lt_or_ge top place with further | short
  · rw [if_pos (order.mpr further), ends, Nat.max_eq_right (Nat.le_of_lt further)]
  · rw [if_neg (fun past => by have := order.mp past; omega), Nat.max_eq_left short]

/-- Some segment carried the byte at a place. -/
def Transmitted (base : UInt32) (wire : List Segment) (o : Nat) : Prop :=
  ∃ seg ∈ wire, ∃ p, seg.seq = base + UInt32.ofNat p ∧ p ≤ o ∧ o < p + seg.data.length

theorem Transmitted.append {o : Nat} (before : Transmitted base wire o) (more : List Segment) :
    Transmitted base (wire ++ more) o := by
  obtain ⟨seg, member, there⟩ := before
  exact ⟨seg, mem_append_left _ member, there⟩

/--
The sending half of a connection against everything its application wrote.

The first `acked` places behind the initial number are acknowledged, and the first `top` places
were transmitted, the FIN taking one behind the last byte.
-/
structure Carries (base : UInt32) (all : Bytes) (wire : List Segment) (acked top : Nat)
    (c : TcpConn) : Prop where
  past : c.Past
  unacked : c.sendUnacked = base + UInt32.ofNat acked
  buffered : c.sendBuf.contents = all.drop acked
  window : c.sentCount ≤ c.sendBuf.len
  flight : acked + c.sentCount ≤ top
  top_le : top ≤ all.length + (if c.finSent then 1 else 0)
  finished : c.finSent → c.finNeeded ∧ all.length ≤ acked
  highest : wire.foldl sndMax base = base + UInt32.ofNat top
  covered : ∀ o < top, o < all.length → Transmitted base wire o

namespace Carries

variable {base : UInt32} {all : Bytes} {wire : List Segment} {acked top : Nat} {c after : TcpConn}
  {seg : Inbound} {segment : Segment}

variable (carries : Carries base all wire acked top c)

include carries

theorem acked_le : acked ≤ top :=
  Nat.le_trans (Nat.le_add_right _ _) carries.flight

theorem len_eq : c.sendBuf.len = all.length - acked := by
  rw [← Ring.contents_length, carries.buffered, length_drop]

/-- What was transmitted and not acknowledged is little against a round of sequence numbers. -/
theorem top_near : top ≤ acked + sendBufCap + 1 := by
  have short := c.sendBuf.len_le
  have len := carries.len_eq
  have bound := carries.top_le
  split at bound <;> omega

/-- Whatever leaves the sending half alone leaves it as it is. -/
theorem keep (past : after.Past) (unacked : after.sendUnacked = c.sendUnacked)
    (buf : after.sendBuf = c.sendBuf) (sent : after.sentCount = c.sentCount)
    (finSent : after.finSent = c.finSent) (finNeeded : c.finNeeded → after.finNeeded) :
    Carries base all wire acked top after where
  past := past
  unacked := by rw [unacked]; exact carries.unacked
  buffered := by rw [buf]; exact carries.buffered
  window := by rw [buf, sent]; exact carries.window
  flight := by rw [sent]; exact carries.flight
  top_le := by rw [finSent]; exact carries.top_le
  finished := by
    rw [finSent]
    exact fun done => ⟨finNeeded (carries.finished done).1, (carries.finished done).2⟩
  highest := carries.highest
  covered := carries.covered

/-- A segment that ends no further than others did before changes nothing. -/
theorem silent {place : Nat} (ends : segment.endSeq = base + UInt32.ofNat place)
    (low : acked ≤ place) (high : place ≤ top) :
    Carries base all (wire ++ [segment]) acked top c := by
  have near := carries.top_near
  have cap : sendBufCap = 2048 := rfl
  refine { carries with highest := ?_, covered := ?_ }
  · have moved := sndMax_append carries.highest ends (by omega) (by omega)
    rwa [Nat.max_eq_left high] at moved
  · intro o small inside
    exact (carries.covered o small inside).append _

/-- An acknowledgement that is new but not past everything sent is of a place in between. -/
theorem ack_place (past : seqGt seg.ack c.sendUnacked)
    (within : ¬ seqGt seg.ack (base + UInt32.ofNat top)) :
    ∃ place, acked < place ∧ place ≤ top ∧ seg.ack = base + UInt32.ofNat place ∧
      (seg.ack - c.sendUnacked).toNat = place - acked := by
  have near := carries.top_near
  have low := carries.acked_le
  have cap : sendBufCap = 2048 := rfl
  obtain ⟨ahead, half⟩ := seqGt_iff.mp past
  have back : seg.ack = base + UInt32.ofNat (acked + (seg.ack - c.sendUnacked).toNat) := by
    rw [← place_add, ← carries.unacked, UInt32.ofNat_toNat, UInt32.add_comm, UInt32.sub_add_cancel]
  refine ⟨acked + (seg.ack - c.sendUnacked).toNat, by omega, ?_, back, by omega⟩
  by_contra beyond
  apply within
  rw [back, seqGt_place (by omega) (by omega)]
  omega

/-- An acknowledgement of something sent drops it from the buffer. -/
theorem acked_within
    (within : seg.hasAck → seqGt seg.ack c.sendUnacked →
      ¬ seqGt seg.ack (base + UInt32.ofNat top)) (ack : Acked c seg after) :
    ∃ acked' ≥ acked, Carries base all wire acked' top after := by
  cases ack with
  | old => exact ⟨acked, Nat.le_refl _, carries⟩
  | new flag past fin => ?_
  obtain ⟨place, ahead, sent, number, distance⟩ := carries.ack_place past (within flag past)
  have len := carries.len_eq
  have window := carries.window
  have flight := carries.flight
  have bound := carries.top_le
  refine ⟨place, Nat.le_of_lt ahead, ?_, number, ?_, ?_, ?_, bound, ?_, carries.highest,
    carries.covered⟩
  · exact Acked.past carries.past (.new flag past fin)
  · -- Past the last byte only the FIN is acknowledged, and then nothing is left either way.
    rw [Ring.contents_consume, carries.buffered, drop_drop, distance, len]
    rcases Nat.le_total place all.length with inside | beyond
    · congr 1
      omega
    · rw [drop_of_length_le (by omega), drop_of_length_le (by omega)]
  · simp only [Ring.consume, distance]
    omega
  · simp only [distance]
    omega
  · intro done
    obtain ⟨needed, drained⟩ := carries.finished done
    exact ⟨needed, by omega⟩

/-- Data goes out from where the transmitted part of the buffer ends. -/
theorem data_out (plain : segment.flags &&& flagFin = 0) (unsent : c.sentCount < c.sendBuf.len)
    (place : segment.seq = base + UInt32.ofNat (acked + c.sentCount))
    (part : segment.data = (all.drop (acked + c.sentCount)).take
      (min (c.sendBuf.len - c.sentCount) tcpMss)) (rtoDeadline : UInt32) :
    Carries base all (wire ++ [segment]) acked
      (max top (acked + c.sentCount + segment.data.length))
      { c with
        sentCount := c.sentCount + min (c.sendBuf.len - c.sentCount) tcpMss
        rtoDeadline := rtoDeadline } := by
  have near := carries.top_near
  have low := carries.flight
  have len := carries.len_eq
  have short := c.sendBuf.len_le
  have cap : sendBufCap = 2048 := rfl
  have length : segment.data.length = min (c.sendBuf.len - c.sentCount) tcpMss := by
    rw [part, length_take, length_drop]
    omega
  have ends : segment.endSeq
      = base + UInt32.ofNat (acked + c.sentCount + segment.data.length) := by
    rw [Segment.endSeq, place, if_neg (by simp [plain]), UInt32.add_zero, place_add]
  refine ⟨carries.past, carries.unacked, carries.buffered, ?_, ?_, ?_, carries.finished,
    sndMax_append carries.highest ends (by omega) (by omega), ?_⟩
  · simp only
    omega
  · simp only
    omega
  · have bound := carries.top_le
    simp only
    omega
  · intro o small inside
    rcases Nat.lt_or_ge o top with before | beyond
    · exact (carries.covered o before inside).append _
    · exact ⟨segment, by simp, acked + c.sentCount, place, by omega, by omega⟩

/-- The FIN goes out once nothing is buffered, and takes the number behind the last byte. -/
theorem fin_out (needed : c.finNeeded) (first : c.finSent = false) (drained : c.sendBuf.len = 0)
    (flag : segment.flags &&& flagFin ≠ 0) (seq : segment.seq = c.sendUnacked)
    (nothing : segment.data = []) (past : after.Past)
    (unacked : after.sendUnacked = c.sendUnacked) (buf : after.sendBuf = c.sendBuf)
    (sent : after.sentCount = c.sentCount) (finSent : after.finSent = true)
    (finNeeded : after.finNeeded = c.finNeeded) :
    Carries base all (wire ++ [segment]) acked (acked + 1) after := by
  have window := carries.window
  have len := carries.len_eq
  have low := carries.acked_le
  have bound := carries.top_le
  rw [first] at bound
  simp only [Bool.false_eq_true, if_false, Nat.add_zero] at bound
  have level : top = acked := by omega
  have ends : segment.endSeq = base + UInt32.ofNat (acked + 1) := by
    rw [Segment.endSeq, seq, nothing, carries.unacked, if_pos flag, length_nil,
      place_add, place_succ, Nat.add_zero]
  refine ⟨past, unacked.trans carries.unacked, buf ▸ carries.buffered, ?_, ?_, ?_, ?_, ?_, ?_⟩
  · rw [buf, sent]
    exact window
  · rw [sent]
    omega
  · rw [finSent]
    simp only [if_true]
    omega
  · intro _
    exact ⟨finNeeded.trans needed, by omega⟩
  · have moved := sndMax_append carries.highest ends (by omega) (by omega)
    rwa [Nat.max_eq_right (by omega)] at moved
  · intro o small inside
    exact (carries.covered o (by omega) inside).append _

/-- A segment that polling sends carries what stands at its place of the stream. -/
theorem sent (sent : Sent c segment after) :
    (∃ p, acked ≤ p ∧ p ≤ acked + sendBufCap ∧ segment.seq = base + UInt32.ofNat p ∧
      segment.data <+: all.drop p) ∧
      ∃ top', Carries base all (wire ++ [segment]) acked top' after := by
  cases sent with
  | data unsent =>
    have plain : (flagAck ||| flagPsh) &&& flagFin = 0 := by decide
    have place : c.sendUnacked + UInt32.ofNat c.sentCount
        = base + UInt32.ofNat (acked + c.sentCount) := by rw [carries.unacked, place_add]
    have part : c.sendBuf.peek c.sentCount (min (c.sendBuf.len - c.sentCount) tcpMss)
        = (all.drop (acked + c.sentCount)).take (min (c.sendBuf.len - c.sentCount) tcpMss) := by
      rw [Ring.peek_eq, carries.buffered, drop_drop]
    have short := c.sendBuf.len_le
    exact ⟨⟨acked + c.sentCount, by omega, by omega, place, part ▸ take_prefix _ _⟩, _,
      carries.data_out plain unsent place part _⟩
  | fin needed first drained =>
    have flag : (flagFin ||| flagAck) &&& flagFin ≠ 0 := by decide
    exact ⟨⟨acked, Nat.le_refl _, Nat.le_add_right _ _, carries.unacked, nil_prefix⟩, acked + 1,
      carries.fin_out needed first drained flag rfl rfl (finSent_past carries.past) rfl rfl rfl rfl
        rfl⟩

/-- What is written is buffered behind the rest. -/
theorem write (going : c.finNeeded = false) (data : Bytes) :
    Carries base (all ++ data.take (c.sendBuf.write data).1) wire acked top
      { c with sendBuf := (c.sendBuf.write data).2 } := by
  have open' : c.finSent = false := by
    by_contra sent
    have needed := (carries.finished (by simpa using sent)).1
    rw [going] at needed
    cases needed
  have bound := carries.top_le
  rw [open'] at bound
  simp only [Bool.false_eq_true, if_false, Nat.add_zero] at bound
  have low := carries.acked_le
  have taken : data.take (c.sendBuf.write data).1 = data.take (sendBufCap - c.sendBuf.len) := by
    rw [take_eq_take_iff, Ring.write]
    omega
  refine ⟨carries.past, carries.unacked, ?_, ?_, carries.flight, ?_, ?_, carries.highest, ?_⟩
  · rw [Ring.contents_write, carries.buffered, taken, drop_append_of_le_length (by omega)]
  · exact Nat.le_trans carries.window (Nat.le_add_right _ _)
  · rw [length_append]
    omega
  · intro sent
    rw [show c.finSent = true from sent] at open'
    cases open'
  · intro o small _
    exact carries.covered o small (by omega)

/-- A timeout makes everything in flight unsent again. -/
theorem aged (aged : Aged c after) : Carries base all wire acked top after := by
  cases aged with
  | same => exact carries
  | expired | gaveUp | repeated => exact carries.keep carries.past rfl rfl rfl rfl id
  | rewound =>
    exact { carries with
      window := Nat.zero_le _
      flight := carries.acked_le }

theorem tookData (took : TookData c seg after) : Carries base all wire acked top after := by
  cases took with
  | none => exact carries
  | some => exact carries.keep carries.past rfl rfl rfl rfl id

theorem tookFin (took : TookFin c seg after) : Carries base all wire acked top after := by
  cases took with
  | none => exact carries
  | some => exact carries.keep (finReceived_past carries.past) rfl rfl rfl rfl id

end Carries

section Runs

variable {base : UInt32} {all : Bytes} {wire : List Segment} {acked top : Nat} {i : Slot}
  {e start : Engine} {ev : Event} {segment : Segment} {iss : UInt32}

/-- A segment without data starts within what was transmitted. -/
theorem reads_sent (reads : ev.Reads) (sent : (e.step ev).1.sent = some (i, segment)) :
    segment.data = [] ∧ segment.flags &&& flagFin = 0 ∧ ∃ k ≤ (e.conns i).sentCount,
      segment.seq = (e.conns i).sendUnacked + UInt32.ofNat k := by
  cases ev with
  | sendSyn idx =>
    cases sent
    exact ⟨rfl, show flagSyn &&& flagFin = 0 by decide, 0, Nat.zero_le _, (UInt32.add_zero _).symm⟩
  | sendSynAck idx =>
    cases sent
    exact ⟨rfl, show (flagSyn ||| flagAck) &&& flagFin = 0 by decide, 0, Nat.zero_le _,
      (UInt32.add_zero _).symm⟩
  | sendAck idx =>
    cases sent
    exact ⟨rfl, show flagAck &&& flagFin = 0 by decide, (e.conns i).sentCount, Nat.le_refl _, rfl⟩
  | _ => cases reads

/-- An acknowledgement that moves the connection does not move it past a sequence number. -/
def Event.Within (ev : Event) (i : Slot) (e : Engine) (highest : UInt32) : Prop :=
  ∀ srcIp payload now seg, ev = .packet srcIp payload now →
    e.addressee srcIp payload = some (i, seg) → seg.hasAck →
    seqGt seg.ack (e.conns i).sendUnacked → ¬ seqGt seg.ack highest

/-- Every section keeps the sending half in step with what the application wrote. -/
theorem Carries.step (carries : Carries base all wire acked top (e.conns i))
    (live : (e.conns i).inUse) (alive : ((e.step ev).2.conns i).inUse) (kept : ¬ ev.Connects i)
    (within : ev.Within i e (wire.foldl sndMax base)) :
    ∃ acked' top', Carries base (all ++ accepted i ev (e.step ev).1)
      (wire ++ transmitted i (e.step ev).1) acked' top' ((e.step ev).2.conns i) := by
  have change := step_change e ev i
  generalize output : (e.step ev).1 = out at change ⊢
  generalize (e.step ev).2.conns i = after at change alive ⊢
  rw [carries.highest] at within
  have past := carries.past
  -- Only polling and the sections that read a connection send anything.
  have silent : accepted i ev out = [] → out.sent = none →
      all ++ accepted i ev out = all ∧ wire ++ transmitted i out = wire := by
    intro untaken unsent
    simp only [untaken, transmitted, unsent, append_nil, and_self]
  cases change with
  | opened free | passive free => cases free.symm.trans live
  | connecting slot => exact absurd slot kept
  | established _ state => exact absurd state past.1
  | queued _ state => exact absurd state past.2
  | dropped _ _ gone => cases gone.symm.trans alive
  | freed | abandoned | reset => cases alive
  | same quiet =>
    rw [quiet.accepted, append_nil, transmitted]
    split
    · rename_i idx seg sent
      split
      · rename_i here
        subst here
        obtain ⟨nothing, plain, k, low, seq⟩ := reads_sent (quiet.sent _ sent) (output ▸ sent)
        have flight := carries.flight
        have ends : seg.endSeq = base + UInt32.ofNat (acked + k) := by
          rw [Segment.endSeq, seq, nothing, carries.unacked, if_neg (by simp [plain]),
            UInt32.add_zero, length_nil, place_add, place_add, Nat.add_zero]
        exact ⟨acked, top, carries.silent ends (by omega) (by omega)⟩
      · rw [append_nil]
        exact ⟨acked, top, carries⟩
    · rw [append_nil]
      exact ⟨acked, top, carries⟩
  | buffered slot _ _ going _ rc =>
    have unsent : out.sent = none := by rw [← output]; rfl
    simp only [transmitted, unsent, append_nil, accepted, if_pos slot, rc]
    exact ⟨acked, top, carries.write going _⟩
  | transferred mine _ ack data fin =>
    obtain ⟨taken, sent⟩ := silent rfl (by rw [← output]; rfl)
    rw [taken, sent]
    obtain ⟨acked', _, moved⟩ := carries.acked_within (within _ _ _ _ rfl mine) ack
    exact ⟨acked', top, (moved.tookData data).tookFin fin⟩
  | aged aged =>
    obtain ⟨taken, sent⟩ := silent rfl (by rw [← output]; rfl)
    rw [taken, sent]
    exact ⟨acked, top, carries.aged aged⟩
  | sent _ _ _ sent here =>
    simp only [accepted, append_nil, transmitted, here, if_true]
    obtain ⟨_, top', carries⟩ := carries.sent sent
    exact ⟨acked, top', carries⟩
  | listening | timedOut =>
    obtain ⟨taken, sent⟩ := silent rfl (by rw [← output]; rfl)
    rw [taken, sent]
    exact ⟨acked, top, carries.keep ⟨by simp, by simp⟩ rfl rfl rfl rfl id⟩
  | closing =>
    obtain ⟨taken, sent⟩ := silent rfl (by rw [← output]; rfl)
    rw [taken, sent]
    exact ⟨acked, top, carries.keep past rfl rfl rfl rfl fun _ => rfl⟩
  | bound | popped | read | pushed =>
    obtain ⟨taken, sent⟩ := silent rfl (by rw [← output]; rfl)
    rw [taken, sent]
    exact ⟨acked, top, carries.keep past rfl rfl rfl rfl id⟩

/--
Sections in the life of the connection in slot `i`: the bytes taken from its application so far,
and the segments sent from it.

No acknowledgement is past everything transmitted.
-/
inductive Sends (base : UInt32) (i : Slot) (start : Engine) :
    Engine → Bytes → List Segment → Prop
  | start : Sends base i start start [] []
  | step {e : Engine} {all : Bytes} {wire : List Segment} {ev : Event}
      (before : Sends base i start e all wire) (alive : ((e.step ev).2.conns i).inUse)
      (kept : ¬ ev.Connects i) (within : ev.Within i e (wire.foldl sndMax base)) :
      Sends base i start (e.step ev).2 (all ++ accepted i ev (e.step ev).1)
        (wire ++ transmitted i (e.step ev).1)

/-- A connection just established, with nothing to send yet behind its first number. -/
structure Unwritten (iss : UInt32) (c : TcpConn) : Prop where
  live : c.inUse
  state : c.state = .established
  empty : c.sendBuf.len = 0
  unsent : c.sentCount = 0
  unacked : c.sendUnacked = iss + 1
  going : c.finSent = false

theorem Unwritten.carries {c : TcpConn} (unwritten : Unwritten iss c) :
    Carries (iss + 1) [] [] 0 0 c where
  past := by rw [TcpConn.Past, unwritten.state]; decide
  unacked := by rw [unwritten.unacked]; exact (UInt32.add_zero _).symm
  buffered := by
    rw [drop_nil, ← length_eq_zero_iff, Ring.contents_length, unwritten.empty]
  window := by rw [unwritten.unsent]; exact Nat.zero_le _
  flight := by rw [unwritten.unsent]
  top_le := Nat.zero_le _
  finished := by simp [unwritten.going]
  highest := (UInt32.add_zero _).symm
  covered := by simp

theorem Sends.carries (unwritten : Unwritten iss (start.conns i))
    (run : Sends (iss + 1) i start e all wire) :
    (e.conns i).inUse ∧ ∃ acked top, Carries (iss + 1) all wire acked top (e.conns i) := by
  induction run with
  | start => exact ⟨unwritten.live, 0, 0, unwritten.carries⟩
  | step _ alive kept within ih =>
    obtain ⟨live, _, _, carries⟩ := ih
    exact ⟨alive, carries.step live alive kept within⟩

/-- The segments polling sends are the only ones with data. -/
theorem data_sent (sent : (e.step ev).1.sent = some (i, segment)) (data : segment.data ≠ []) :
    ∃ after, Sent (e.conns i) segment after := by
  cases ev with
  | pollSend now =>
    have picked : (e.chooseSegment now ((range maxTcpConns).map e.pollSlot)).1
        = some (i, segment) := sent
    obtain ⟨after, chosen⟩ := chooseSegment_outgoing picked
    exact ⟨after, (outgoing_sent chosen).2.2.2⟩
  | sendSyn | sendSynAck | sendAck => exact absurd (reads_sent (by trivial) sent).1 data
  | _ => cases sent

/--
What a connection sends is what its application wrote, whatever is retransmitted and when.

A segment with data carries the bytes at its place of the stream. What was transmitted and not
acknowledged is buffered, and the buffer holds everything written that is not acknowledged.
-/
theorem tcp_send_integrity {iss : UInt32} (unwritten : Unwritten iss (start.conns i))
    (run : Sends (iss + 1) i start e all wire) :
    ∃ acked top, Carries (iss + 1) all wire acked top (e.conns i) ∧
      ∀ ev seg, (e.step ev).1.sent = some (i, seg) → seg.data ≠ [] →
        ∃ offset, acked ≤ offset ∧ offset ≤ acked + sendBufCap ∧
          seg.seq = iss + 1 + UInt32.ofNat offset ∧ seg.data <+: all.drop offset := by
  obtain ⟨_, acked, top, carries⟩ := run.carries unwritten
  refine ⟨acked, top, carries, ?_⟩
  intro ev seg sent data
  obtain ⟨after, sent⟩ := data_sent sent data
  exact (carries.sent sent).1

/-- A segment for a live connection past its handshake goes through its transfer states. -/
theorem packet_transfers {srcIp now : UInt32} {payload : Bytes} {seg : Inbound}
    (mine : e.addressee srcIp payload = some (i, seg)) (past : (e.conns i).Past)
    (alive : ((e.step (.packet srcIp payload now)).2.conns i).inUse) :
    ∃ acked filled, Acked (e.conns i) seg acked ∧ TookData acked seg filled ∧
      TookFin filled seg ((e.step (.packet srcIp payload now)).2.conns i) := by
  rw [packet_delivers mine] at alive ⊢
  simp only [Engine.deliver, if_neg past.1, if_neg past.2] at alive ⊢
  split at alive
  · simp at alive
  · rename_i valid
    rw [if_neg valid, Engine.set_conns, Function.update_self]
    exact ⟨_, _, acknowledge_acked _ seg now, acceptData_took seg, acceptFin_took _ seg now⟩

/-- An acknowledgement past everything transmitted moves the connection there. -/
theorem past_highest (carries : Carries base all wire acked top (e.conns i))
    (alive : ((e.step ev).2.conns i).inUse)
    (beyond : ¬ ev.Within i e (wire.foldl sndMax base)) :
    seqGt ((e.step ev).2.conns i).sendUnacked
      ((wire ++ transmitted i (e.step ev).1).foldl sndMax base) := by
  simp only [Event.Within, not_forall, not_not] at beyond
  obtain ⟨srcIp, payload, now, seg, rfl, mine, flag, new, past⟩ := beyond
  have silent : transmitted i (e.step (.packet srcIp payload now)).1 = [] := rfl
  rw [silent, append_nil]
  obtain ⟨moved, filled, ack, data, fin⟩ := packet_transfers mine carries.past alive
  have unacked : moved.sendUnacked = seg.ack := by
    cases ack with
    | old old => exact absurd ⟨flag, new⟩ old
    | new => rfl
  have kept : ((e.step (.packet srcIp payload now)).2.conns i).sendUnacked
      = moved.sendUnacked := by
    generalize (e.step (.packet srcIp payload now)).2.conns i = after at fin ⊢
    cases data <;> cases fin <;> rfl
  rw [kept, unacked]
  exact past

/--
One more section drops no byte before it was transmitted, and does not move the connection past
everything transmitted, exactly if the section brings no acknowledgement past that.
-/
theorem tcp_unsent_kept {iss : UInt32} (unwritten : Unwritten iss (start.conns i))
    (run : Sends (iss + 1) i start e all wire) (alive : ((e.step ev).2.conns i).inUse)
    (kept : ¬ ev.Connects i) :
    ((∀ o < (all ++ accepted i ev (e.step ev).1).length - ((e.step ev).2.conns i).sendBuf.len,
        Transmitted (iss + 1) (wire ++ transmitted i (e.step ev).1) o) ∧
      ¬ seqGt ((e.step ev).2.conns i).sendUnacked
        ((wire ++ transmitted i (e.step ev).1).foldl sndMax (iss + 1))) ↔
      ev.Within i e (wire.foldl sndMax (iss + 1)) := by
  obtain ⟨live, acked, top, carries⟩ := run.carries unwritten
  constructor
  · rintro ⟨_, behind⟩
    by_contra beyond
    exact behind (past_highest carries alive beyond)
  intro within
  obtain ⟨acked', top', after⟩ := carries.step live alive kept within
  have low := after.acked_le
  have near := after.top_near
  have len := after.len_eq
  have cap : sendBufCap = 2048 := rfl
  constructor
  · intro o left
    exact after.covered o (by omega) (by omega)
  · rw [after.unacked, after.highest, seqGt_place (by omega) (by omega)]
    omega

end Runs

/-- The sample connection once its application has written two bytes. -/
def writtenEngine : Engine := (sampleEngine.step (.send 0 (ascii "hi"))).2

/-- The peer's acknowledgement of two bytes. -/
def sampleAck : Bytes := [0, 9, 0, 80, 0, 0, 0, 1, 0, 0, 0, 3, 0x50, 0x10, 0, 0, 0, 0, 0, 0]

theorem sample_unwritten : Unwritten 0 (sampleEngine.conns 0) :=
  ⟨by decide, by decide, by decide, by decide, by decide, by decide⟩

theorem written_sends : Sends (0 + 1) 0 sampleEngine writtenEngine (ascii "hi") [] := by
  have run := (Sends.start : Sends (0 + 1) 0 sampleEngine sampleEngine [] []).step
    (show ((sampleEngine.step (.send 0 (ascii "hi"))).2.conns 0).inUse by decide) id
    (fun _ _ _ _ same => by cases same)
  have taken : [] ++ accepted 0 (.send 0 (ascii "hi"))
      (sampleEngine.step (.send 0 (ascii "hi"))).1 = ascii "hi" := by decide
  rw [taken] at run
  exact run

/-- The two bytes written go out in a segment that starts behind the first number. -/
theorem tcp_send_integrity_hi : ∃ seg, (writtenEngine.step (.pollSend 5)).1.sent = some (0, seg) ∧
    seg.data = ascii "hi" ∧ ∃ offset, seg.seq = 0 + 1 + UInt32.ofNat offset ∧
      seg.data <+: (ascii "hi").drop offset := by
  have sent : (writtenEngine.step (.pollSend 5)).1.sent = some (0,
      { remoteIp := 7, localPort := 80, remotePort := 9, seq := 1, ack := 1, flags := 0x18,
        window := 2048, data := ascii "hi" }) := by decide
  obtain ⟨acked, _, _, segments⟩ := tcp_send_integrity sample_unwritten written_sends
  obtain ⟨offset, _, _, place, part⟩ := segments _ _ sent (by decide)
  exact ⟨_, sent, rfl, offset, place, part⟩

/-- Polling the connection sends the two bytes and drops nothing. -/
theorem tcp_unsent_kept_hi :
    ¬ seqGt ((writtenEngine.step (.pollSend 5)).2.conns 0).sendUnacked
      (([] ++ transmitted 0 (writtenEngine.step (.pollSend 5)).1).foldl sndMax (0 + 1)) :=
  ((tcp_unsent_kept sample_unwritten written_sends (by decide) id).mpr
    fun _ _ _ _ same => by cases same).2

/-- An acknowledgement of bytes that were never sent empties the buffer, and they never are. -/
theorem early_ack_discards :
    let e := (writtenEngine.step (.packet 7 sampleAck 5)).2
    (writtenEngine.conns 0).sendBuf.contents = ascii "hi" ∧ (writtenEngine.conns 0).sentCount = 0 ∧
      (e.conns 0).inUse ∧ (e.conns 0).sendBuf.contents = [] ∧ (e.conns 0).sendUnacked = 3 ∧
      (e.step (.pollSend 6)).1.sent = none := by
  decide

end NovaOs.Tcp
