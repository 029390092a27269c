import NovaOs.Tcp.Handles

/-! What waits in a backlog is an established connection of its listener, and waits there once. -/

namespace NovaOs.Tcp

/-- A listener in use. -/
def TcpConn.Listens (c : TcpConn) : Prop := c.inUse ∧ c.isListener

/-- A connection that a peer opened and that is past its handshake. -/
structure TcpConn.Waits (c : TcpConn) : Prop where
  plain : c.isListener = false
  -- The peer may have finished sending before anyone accepts.
  state : c.state = .established ∨ c.state = .closeWait ∧ c.peerFinReceived

/-- A connection half-way through a passive handshake. -/
def TcpConn.HalfOpen (c : TcpConn) : Prop := c.inUse ∧ c.state = .synReceived

section Engine

variable {e : Engine} {ev : Event} {i l : Slot} {c : TcpConn}

/-- A listener has a port, since it was bound before it listened. -/
def Engine.Bound (e : Engine) : Prop := ∀ l, (e.conns l).Listens → (e.conns l).localPort ≠ 0

/-- A listener afterwards was one before with the same port, or was just made one. -/
theorem listens_step (bound : e.Bound) (listens : ((e.step ev).2.conns l).Listens) :
    ((e.conns l).Listens ∨ ∃ id, ev = .listen id ∧ slotOf id = some l) ∧
      (e.conns l).localPort ≠ 0 ∧
      ((e.step ev).2.conns l).localPort = (e.conns l).localPort := by
  have change := step_change e ev l
  have before := bound l
  obtain ⟨live, listener⟩ := listens
  generalize (e.step ev).2.conns l = after at change live listener ⊢
  cases change with
  | opened | passive => cases listener
  | freed | abandoned | reset => cases live
  | dropped _ _ gone => cases gone.symm.trans live
  | bound _ _ _ unbound => exact absurd unbound (before ⟨live, listener⟩)
  | listening slot _ _ bound => exact ⟨.inr ⟨_, rfl, slot⟩, bound, rfl⟩
  | connecting _ _ plain => cases plain.symm.trans listener
  | transferred _ _ ack data fin =>
    have fixed := transferred_fixed ack data fin
    have was : (e.conns l).Listens := ⟨fixed.live live, fixed.isListener ▸ listener⟩
    exact ⟨.inl was, before was, fixed.localPort⟩
  | aged aged =>
    have fixed := aged.fixed
    have was : (e.conns l).Listens := ⟨fixed.live live, fixed.isListener ▸ listener⟩
    exact ⟨.inl was, before was, fixed.localPort⟩
  | sent _ _ _ sent =>
    cases sent <;> exact ⟨.inl ⟨live, listener⟩, before ⟨live, listener⟩, rfl⟩
  | _ => exact ⟨.inl ⟨live, listener⟩, before ⟨live, listener⟩, rfl⟩

theorem Engine.Bound.step (bound : e.Bound) : (e.step ev).2.Bound := by
  intro l listens
  obtain ⟨_, port, same⟩ := listens_step bound listens
  rw [same]
  exact port

/-- A listener that stays in use stays a listener. -/
theorem listens_kept (listens : (e.conns l).Listens) (alive : ((e.step ev).2.conns l).inUse) :
    ((e.step ev).2.conns l).Listens := by
  have change := step_change e ev l
  obtain ⟨live, listener⟩ := listens
  generalize (e.step ev).2.conns l = after at change alive ⊢
  refine ⟨alive, ?_⟩
  cases change with
  | opened free | passive free => cases free.symm.trans live
  | dropped _ _ gone => cases gone.symm.trans alive
  | listening => rfl
  | transferred _ _ ack data fin => exact (transferred_fixed ack data fin).isListener ▸ listener
  | aged aged => exact aged.fixed.isListener ▸ listener
  | sent _ _ _ sent => cases sent <;> exact listener
  | _ => exact listener

/-- The peer can finish sending on a connection that waits, and do nothing else to its state. -/
theorem waits_transferred {seg : Inbound} {acked filled after : TcpConn}
    (state : c.state = .established ∨ c.state = .closeWait ∧ c.peerFinReceived)
    (unsent : c.finSent = false) (ack : Acked c seg acked) (data : TookData acked seg filled)
    (fin : TookFin filled seg after) :
    after.state = .established ∨ after.state = .closeWait ∧ after.peerFinReceived := by
  have first : acked.state = c.state ∧ acked.peerFinReceived = c.peerFinReceived := by
    cases ack with
    | old => exact ⟨rfl, rfl⟩
    | new _ _ ended =>
      rcases ended with ⟨rfl, _⟩ | ⟨sent, _⟩
      · exact ⟨rfl, rfl⟩
      · cases unsent.symm.trans sent
  have second : filled.state = c.state ∧ filled.peerFinReceived = c.peerFinReceived := by
    cases data <;> exact first
  rw [← second.1, ← second.2] at state
  cases fin with
  | none => exact state
  | some =>
    -- A FIN makes a waiting connection half-closed, and a second one leaves it so.
    right
    rcases state with state | ⟨state, _⟩ <;> simp [state, TcpState.finReceived]

/-- A connection that waits goes on waiting while nobody closes it or has it connect. -/
theorem TcpConn.Waits.step (waits : (e.conns i).Waits) (calm : (e.conns i).Calm)
    (later : ((e.step ev).2.conns i).Calm) (untimed : ev ≠ .connectTimeout i) :
    ((e.step ev).2.conns i).Waits ∧
      ((e.step ev).2.conns i).localPort = (e.conns i).localPort := by
  have change := step_change e ev i
  obtain ⟨plain, state⟩ := waits
  have opened : (e.conns i).state ≠ .closed := by
    rcases state with state | ⟨state, _⟩ <;> rw [state] <;> decide
  have handshaken : (e.conns i).state ≠ .synSent := by
    rcases state with state | ⟨state, _⟩ <;> rw [state] <;> decide
  generalize (e.step ev).2.conns i = after at change later ⊢
  cases change with
  | same | popped | buffered | read | pushed => exact ⟨⟨plain, state⟩, rfl⟩
  | opened free | passive free => cases free.symm.trans calm.live
  | bound _ _ closed | listening _ _ closed | connecting _ _ _ closed => exact absurd closed opened
  | timedOut => exact absurd rfl untimed
  | freed | abandoned | reset => cases later.live
  | closing => cases later.going
  | established _ sent => exact absurd sent handshaken
  | queued _ half | dropped _ half => exact absurd half calm.notHalfOpen
  | transferred _ _ ack data fin =>
    have fixed := transferred_fixed ack data fin
    exact ⟨⟨fixed.isListener.trans plain, waits_transferred state calm.unsent ack data fin⟩,
      fixed.localPort⟩
  | aged aged =>
    have fixed := aged.fixed
    refine ⟨⟨fixed.isListener.trans plain, ?_⟩, fixed.localPort⟩
    cases aged <;> exact state
  | sent _ _ _ sent =>
    cases sent with
    | data => exact ⟨⟨plain, state⟩, rfl⟩
    | fin needed => cases calm.going.symm.trans needed

/-- A half-open connection was one before, or was just opened for a first segment. -/
theorem halfOpen_step (half : ((e.step ev).2.conns i).HalfOpen) :
    (e.conns i).HalfOpen ∧ ((e.step ev).2.conns i).listenerId = (e.conns i).listenerId ∧
        ((e.step ev).2.conns i).localPort = (e.conns i).localPort ∨
      ∃ l, (e.conns i).inUse = false ∧ (e.conns l).Listens ∧
        ((e.step ev).2.conns i).listenerId = some l ∧
        ((e.step ev).2.conns i).localPort = (e.conns l).localPort ∧
        ∃ srcIp payload now, ev = .packet srcIp payload now := by
  have change := step_change e ev i
  obtain ⟨live, state⟩ := half
  generalize (e.step ev).2.conns i = after at change live state ⊢
  cases change with
  | opened | listening | connecting | timedOut | established | queued => cases state
  | freed | abandoned | reset => cases live
  | dropped _ _ gone => cases gone.symm.trans live
  | bound _ _ closed => cases closed.symm.trans state
  | @passive srcIp payload now _ seg l free hears =>
    simp only [TcpConn.hears, Bool.and_eq_true, beq_iff_eq] at hears
    exact .inr ⟨l, free, hears.1.1, rfl, hears.2.symm, srcIp, payload, now, rfl⟩
  | transferred _ past ack data fin =>
    exact absurd state ((fin.past (data.past (ack.past past))).2)
  | aged aged =>
    have fixed := aged.fixed
    refine .inl ⟨⟨fixed.live live, ?_⟩, fixed.listenerId, fixed.localPort⟩
    cases aged <;> exact state
  | sent _ _ active sent =>
    cases sent with
    | data => exact .inl ⟨⟨live, state⟩, rfl, rfl⟩
    | fin => exact absurd state (finSent_past (active_past active)).2
  | _ => exact .inl ⟨⟨live, state⟩, rfl, rfl⟩

end Engine

/-- A handle, or a process in the middle of a call, keeps a slot. -/
def Sockets.Owned (s : Sockets) (l : Slot) : Prop :=
  (∃ h, s.Refers (.handle h) l) ∨ ∃ pid, s.Refers (.process pid) l

/-- Every listener belongs to someone. -/
def Sockets.Kept (s : Sockets) : Prop := ∀ l, (s.engine.conns l).Listens → s.Owned l

/-- Connections that wait, and those that soon will, belong to their listener by port. -/
structure Sockets.Queues (s : Sockets) : Prop where
  bound : s.engine.Bound
  half : ∀ i, (s.engine.conns i).HalfOpen → ∃ l, (s.engine.conns i).listenerId = some l ∧
    (s.engine.conns l).Listens ∧ (s.engine.conns l).localPort = (s.engine.conns i).localPort
  waiting : ∀ l i, s.Refers (.listener l) i →
    (s.engine.conns i).Waits ∧ (s.engine.conns i).localPort = (s.engine.conns l).localPort

namespace Sockets

variable {s : Sockets} {ev : Event} {i l : Slot} {pid handle : Int} {h : Handle} {s' : Sockets}

/-- No section mixes up what waits, if it cuts nothing that is kept and closes no parent. -/
theorem Queues.advance (queues : s.Queues) (sound : s.Sound)
    (spared : ∀ a i, s.Refers a i → ¬ ev.Cuts s.engine i)
    (closes : ∀ id l, ev = .close id → slotOf id = some l → ∀ a, ¬ s.Refers a l)
    (parents : ∀ l, (s.engine.conns l).Listens →
      (∃ i, (s.engine.conns i).HalfOpen ∧ (s.engine.conns i).listenerId = some l) ∨
        (∃ srcIp payload now, ev = .packet srcIp payload now) → ∃ a, s.Refers a l)
    (untimed : ∀ i, ev = .connectTimeout i → ∀ l, ¬ s.Refers (.listener l) i) :
    (s.advance ev).2.Queues := by
  have after := sound.advance spared closes
  -- A listener that something keeps is one afterwards too, with the port it has.
  have listens : ∀ {a l}, s.Refers a l → (s.engine.conns l).Listens →
      ((s.engine.step ev).2.conns l).Listens ∧
        ((s.engine.step ev).2.conns l).localPort = (s.engine.conns l).localPort := by
    intro a l refers was
    have calm : ((s.engine.step ev).2.conns l).Calm := by
      refine (sound.calm refers).step (spared a l refers) ?_
      rintro id l' rfl slot
      refine ⟨fun same => closes id l' rfl slot a (same ▸ refers), ?_⟩
      intro live listener member
      have plain := (queues.waiting l' l ⟨live, listener, member⟩).1.plain
      cases plain.symm.trans was.2
    have still := listens_kept was calm.live
    exact ⟨still, (listens_step queues.bound still).2.2⟩
  refine ⟨queues.bound.step, ?_, ?_⟩
  · intro i half
    rw [advance_engine] at half ⊢
    rcases halfOpen_step half with ⟨before, parent, port⟩ | ⟨l, _, was, parent, port, packet⟩
    · obtain ⟨l, child, was, same⟩ := queues.half i before
      obtain ⟨a, refers⟩ := parents l was (.inl ⟨i, before, child⟩)
      obtain ⟨still, kept⟩ := listens refers was
      exact ⟨l, parent.trans child, still, by rw [kept, same, port]⟩
    · obtain ⟨a, refers⟩ := parents l was (.inr packet)
      obtain ⟨still, kept⟩ := listens refers was
      exact ⟨l, parent, still, by rw [kept, port]⟩
  · intro l i refers
    have port := (listens_step queues.bound (l := l) ⟨refers.1, refers.2.1⟩).2.2
    rcases refers_advance refers with before | ⟨_, _, _, _, seg, same, _, mine, half, parent, done⟩
    · obtain ⟨waits, same⟩ := queues.waiting l i before
      have untimed : ev ≠ .connectTimeout i := fun timed => untimed i timed l before
      obtain ⟨still, kept⟩ := waits.step (sound.calm before) (after.calm refers) untimed
      refine ⟨still, ?_⟩
      rw [advance_engine, kept, same, port]
    cases same
    obtain ⟨live, plain⟩ := addressee_live mine
    obtain ⟨l', child, _, same⟩ := queues.half i ⟨live, half⟩
    cases parent.symm.trans child
    rw [advance_engine, port, done, same]
    exact ⟨⟨plain, .inl rfl⟩, rfl⟩

section

variable (kept : s.Kept)

include kept

/-- Listeners stay with their owners while handles and calls stay as they are. -/
theorem Kept.advance (bound : s.engine.Bound)
    (listening : ∀ id l, ev = .listen id → slotOf id = some l → s.Owned l) :
    (s.advance ev).2.Kept := by
  intro l listens
  have owned : s.Owned l := by
    rcases (listens_step bound listens).1 with was | ⟨id, same, slot⟩
    · exact kept l was
    · exact listening id l same slot
  exact owned

/-- Listeners stay with someone while handles and calls change. -/
theorem Kept.of (same : s'.engine = s.engine)
    (owned : ∀ l, (s.engine.conns l).Listens → s.Owned l → s'.Owned l) : s'.Kept := by
  intro l listens
  rw [same] at listens
  exact owned l listens (kept l listens)

/-- A process that has no slot in hand goes on with its call. -/
theorem Kept.setPending {next : Option Pending} (empty : (s.pending pid).bind Pending.held = none) :
    (s.setPending pid next).Kept := by
  refine kept.of rfl ?_
  rintro l _ (⟨h, held⟩ | ⟨pid', held⟩)
  · exact .inl ⟨h, (refers_setPending (by simp)).mpr held⟩
  · refine .inr ⟨pid', (refers_setPending ?_).mpr held⟩
    rintro same
    cases same
    exact absurd (empty.symm.trans held) (by simp)

/-- An entry that is not in use is filled. -/
theorem Kept.setFile {f : OpenFile} (free : (s.files h).inUse = false) : (s.setFile h f).Kept := by
  refine kept.of rfl ?_
  rintro l _ (⟨h', held⟩ | ⟨pid', held⟩)
  · refine .inl ⟨h', (refers_setFile ?_).mpr held⟩
    rintro same
    cases same
    cases free.symm.trans held.1
  · exact .inr ⟨pid', (refers_setFile (by simp)).mpr held⟩

/-- A section other than the one that makes a listener. -/
theorem Kept.quiet (bound : s.engine.Bound) (other : ∀ id, ev ≠ .listen id) :
    (s.advance ev).2.Kept :=
  kept.advance bound fun id _ same => absurd same (other id)

/-- A process hands its slot over to a handle, or goes on with it. -/
theorem Kept.pass {connId : Int} (engine : s'.engine = s.engine)
    (pending : s.pending pid = some (.claim connId))
    (others : ∀ {a l}, a ≠ .process pid → s.Refers a l → s'.Refers a l)
    (mine : ∀ l, slotOf connId = some l → s'.Owned l) : s'.Kept := by
  refine kept.of engine ?_
  rintro l _ (⟨h, held⟩ | ⟨pid', held⟩)
  · exact .inl ⟨h, others (by simp) held⟩
  · by_cases same : pid' = pid
    · subst same
      exact mine l (by simpa [Refers, pending, Pending.held] using held)
    · exact .inr ⟨pid', others (by simpa using same) held⟩

/-- A handle that is closed keeps nothing any more, and the process has what it kept. -/
theorem Kept.closing (free : s.pending pid = none) :
    ((s.setFile h { s.files h with inUse := false }).setPending pid
      (some (.closing (s.files h).pipeId none))).Kept := by
  have taken : (s.setPending pid (some (.closing (s.files h).pipeId none))).Kept :=
    kept.setPending (by rw [free]; rfl)
  refine taken.of rfl ?_
  rintro l _ (⟨h', held⟩ | ⟨pid', held⟩)
  · by_cases same : h' = h
    · subst same
      exact .inr ⟨pid, refers_setPending_self.mpr held.2.2⟩
    · have other : (s.setFile h { s.files h with inUse := false }).Refers (.handle h') l :=
        (refers_setFile (by simpa using same)).mpr held
      exact .inl ⟨h', other⟩
  · exact .inr ⟨pid', held⟩

/-- The listener that is closed is one no longer. -/
theorem Kept.gone {connId : Int} {rc : Option Int} (bound : s.engine.Bound)
    (pending : s.pending pid = some (.closing connId rc)) :
    ((s.advance (.close connId)).2.setPending pid none).Kept := by
  intro l listens
  have later : ((s.engine.step (.close connId)).2.conns l).Listens := listens
  rcases (listens_step bound later).1 with was | ⟨_, same, _⟩
  · rcases kept l was with ⟨h, held⟩ | ⟨pid', held⟩
    · exact .inl ⟨h, held⟩
    by_cases same : pid' = pid
    · subst same
      have slot : slotOf connId = some l := by
        simpa [Refers, pending, Pending.held] using held
      cases (close_listener slot was.1 was.2).symm.trans later.1
    · exact .inr ⟨pid', (refers_setPending (by simpa using same)).mpr held⟩
  · cases same

theorem Kept.step {a : Action} (bound : s.engine.Bound) : (s.step a).2.Kept := by
  have empty : ∀ {pid next}, s.pending pid = next → next.bind Pending.held = none →
      (s.pending pid).bind Pending.held = none := fun pending nothing => pending ▸ nothing
  have move := s.step_move a
  generalize (s.step a).2 = after at move ⊢
  cases move with
  | idle => exact kept
  | @used _ _ connId ev _ entry uses =>
    obtain ⟨h, entry⟩ := entry
    refine kept.advance bound fun id l same slot => .inl ⟨h, ?_⟩
    subst same
    obtain rfl : id = connId := uses
    simp [Refers, entry, slot]
  | refused | polled => exact kept.quiet bound fun _ same => by cases same
  | opened free | connecting free =>
    exact (kept.quiet bound fun _ same => by cases same).setPending (empty free rfl)
  | crowded pending =>
    exact kept.pass rfl pending (fun other held => (refers_setPending other).mpr held)
      fun l slot => .inr ⟨_, refers_setPending_self.mpr slot⟩
  | @claimed pid connId h pending unused =>
    have others : ∀ {a l}, s.Refers a l →
        (s.setFile h ⟨true, pid, .socket, connId⟩).Refers a l := by
      intro a l held
      refine (refers_setFile ?_).mpr held
      rintro rfl
      cases unused.symm.trans held.1
    refine kept.pass rfl pending (fun {a l} other held => ?_) fun l slot => .inl ⟨h, ?_⟩
    · have filed : ((s.setFile h ⟨true, pid, .socket, connId⟩).setPending pid none).Refers a l :=
        (refers_setPending other).mpr (others held)
      cases a <;> exact filed
    · exact (refers_setFile_self (s := s)).mpr ⟨rfl, rfl, slot⟩
  | @closed _ _ h _ _ kind =>
    refine kept.of rfl ?_
    rintro l _ (⟨h', held⟩ | ⟨pid', held⟩)
    · refine .inl ⟨h', (refers_setFile ?_).mpr held⟩
      rintro same
      cases same
      exact kind held.2.1
    · exact .inr ⟨pid', held⟩
  | closing free => exact kept.closing free
  | gone pending => exact kept.gone bound pending
  | accepting free => exact kept.setPending (empty free rfl)
  | failed pending | accepted pending | timedOut pending =>
    exact (kept.quiet bound fun _ same => by cases same).setPending (empty pending rfl)
  | connected pending => exact kept.setPending (empty pending rfl)
  | filed _ unused => exact kept.setFile unused
  | network outside =>
    refine kept.quiet bound ?_
    rintro id rfl
    cases outside

end

theorem Owned.refers (owned : s.Owned l) : ∃ a, s.Refers a l := by
  rcases owned with ⟨h, held⟩ | ⟨pid, held⟩
  · exact ⟨_, held⟩
  · exact ⟨_, held⟩

/-- Only the engine matters to what waits. -/
theorem Queues.of (queues : s.Queues) (same : s'.engine = s.engine) : s'.Queues  where
  bound := by rw [same]; exact queues.bound
  half := by rw [same]; exact queues.half
  waiting := by
    intro l i refers
    rw [Refers, same] at refers
    rw [same]
    exact queues.waiting l i refers

theorem Queues.mild (queues : s.Queues) (sound : s.Sound) (kept : s.Kept) (mild : ev.Mild)
    (untimed : ∀ i, ev = .connectTimeout i → ∀ l, ¬ s.Refers (.listener l) i) :
    (s.advance ev).2.Queues := by
  refine queues.advance sound ?_ ?_ (fun l was _ => (kept l was).refers) untimed
  · intro a i _ cuts
    cases ev <;> first | exact mild | exact cuts
  · rintro id l rfl
    exact mild.elim

end Sockets

/-- No listener is closed while a handshake with it is under way. -/
def Sockets.Attended (s : Sockets) (a : Action) : Prop :=
  ∀ pid connId rc l, a = .finishClose pid → s.pending pid = some (.closing connId rc) →
    slotOf connId = some l → (s.engine.conns l).Listens →
    ∀ i, (s.engine.conns i).HalfOpen → (s.engine.conns i).listenerId ≠ some l

namespace Sockets

variable {s : Sockets} {pid : Int}

theorem Queues.gone {connId : Int} {rc : Option Int} (queues : s.Queues) (sound : s.Sound)
    (kept : s.Kept) (attended : s.Attended (.finishClose pid))
    (pending : s.pending pid = some (.closing connId rc)) :
    ((s.advance (.close connId)).2.setPending pid none).Queues := by
  have mine : ∀ {l}, s.Refers (.process pid) l ↔ slotOf connId = some l := by
    intro l
    simp [Refers, pending, Pending.held]
  have down : (s.setPending pid none).Sound := sound.release rfl
  have same : (s.setPending pid none).Queues := queues.of rfl
  have closed : ((s.setPending pid none).advance (.close connId)).2.Queues := by
    refine same.advance down (fun _ _ _ cuts => cuts) ?_ ?_ ?_
    · intro id l same slot a
      cases same
      exact sound.put (mine.mpr slot) a
    · -- The parent of a half-open connection is not the one that is closed.
      rintro l was (⟨i, half, child⟩ | ⟨_, _, _, same⟩)
      · rcases kept l was with ⟨h, held⟩ | ⟨pid', held⟩
        · exact ⟨_, (refers_setPending (by simp)).mpr held⟩
        · refine ⟨.process pid', (refers_setPending ?_).mpr held⟩
          rintro same
          cases same
          exact attended pid connId rc l rfl pending (mine.mp held) was i half child
      · cases same
    · intro i same
      cases same
  exact closed

/-- Every section that spares what is kept leaves the backlogs in order. -/
theorem Queues.step {a : Action} (queues : s.Queues) (sound : s.Sound) (calling : s.Calling)
    (kept : s.Kept) (spared : s.Spared a) (attended : s.Attended a) : (s.step a).2.Queues := by
  have still : ∀ ev : Event, ev.Mild → (∀ i, ev ≠ .connectTimeout i) →
      (s.advance ev).2.Queues := fun _ mild untimed =>
    queues.mild sound kept mild fun i same => absurd same (untimed i)
  have move := s.step_move a
  generalize (s.step a).2 = after at move ⊢
  cases move with
  | idle => exact queues
  | used _ _ uses => exact still _ (mild_of_uses uses) fun i same => by subst same; exact uses
  | refused | polled => exact still _ trivial fun _ same => by cases same
  | opened => exact (still .socket trivial fun _ same => by cases same).of rfl
  | crowded | claimed | closed | closing | accepting | connected | filed => exact queues.of rfl
  | gone pending => exact queues.gone sound kept attended pending
  | @failed _ connId | @accepted _ connId =>
    exact (still (.accept connId) trivial fun _ same => by cases same).of rfl
  | @connecting _ _ connId ip isn rto port =>
    exact (still (.connectBegin connId ip port isn rto) trivial fun _ same => by cases same).of rfl
  | @timedOut pid connId idx pending slot =>
    -- A process that connects has a handle for the slot, so that it waits in no backlog.
    have after : (s.advance (.connectTimeout idx)).2.Queues := by
      refine queues.mild sound kept trivial ?_
      intro i same l waiting
      cases same
      obtain ⟨h, entry⟩ := calling pid connId (by simp [pending, Pending.awaits])
      have held : s.Refers (.handle h) idx := by simp [Refers, entry, slot]
      cases sound.unique held waiting
    exact after.of rfl
  | network outside =>
    refine queues.advance sound (spared _ rfl) ?_ (fun l was _ => (kept l was).refers) ?_
    · rintro id l rfl
      cases outside
    · rintro i rfl
      cases outside

/--
States that runs from the start lead to, while no section frees a slot that is kept and no listener
is closed during a handshake.
-/
inductive Attends : Sockets → Prop
  | boot : Attends {}
  | step {s : Sockets} {a : Action} (before : Attends s) (spared : s.Spared a)
      (attended : s.Attended a) : Attends (s.step a).2

theorem Attends.queues (run : Attends s) : s.Sound ∧ s.Calling ∧ s.Kept ∧ s.Queues := by
  induction run with
  | boot =>
    refine ⟨boot_sound, fun _ _ waits => by simp at waits, ?_, ?_, ?_, ?_⟩
    · rintro l ⟨live, _⟩
      cases live
    · rintro l ⟨live, _⟩
      cases live
    · rintro i ⟨live, _⟩
      cases live
    · rintro l i ⟨live, _⟩
      cases live
  | step _ spared attended ih =>
    obtain ⟨sound, calling, kept, queues⟩ := ih
    exact ⟨sound.step spared, calling.step, kept.step queues.bound,
      queues.step sound calling kept spared attended⟩

/-- What a connection in the backlog of a listener has to be. -/
structure Awaits (s : Sockets) (l i : Slot) : Prop where
  live : (s.engine.conns i).inUse
  waits : (s.engine.conns i).Waits
  going : (s.engine.conns i).finNeeded = false
  port : (s.engine.conns i).localPort = (s.engine.conns l).localPort
  -- Neither a handle nor a call has it, which accepting would have led to, and no other backlog.
  only : ∀ a, s.Refers a i → a = .listener l
  once : (s.engine.conns l).backlog.val.count i = 1

/--
Whatever stands in a backlog is an established connection of that listener which nobody accepted,
and it stands there once; so that this is what accepting returns.
-/
theorem backlog_integrity (run : Attends s) :
    (∀ l i, (s.engine.conns l).Listens → i ∈ (s.engine.conns l).backlog.val → s.Awaits l i) ∧
      ∀ id newId, (s.engine.step (.accept id)).1.rc = some newId → 0 ≤ newId →
        ∃ l i, slotOf id = some l ∧ slotOf newId = some i ∧ s.Awaits l i := by
  obtain ⟨sound, _, _, queues⟩ := run.queues
  have waiting : ∀ l i, (s.engine.conns l).Listens → i ∈ (s.engine.conns l).backlog.val →
      s.Awaits l i := by
    intro l i listens member
    have refers : s.Refers (.listener l) i := ⟨listens.1, listens.2, member⟩
    have calm := sound.calm refers
    obtain ⟨waits, port⟩ := queues.waiting l i refers
    exact ⟨calm.live, waits, calm.going, port, fun a other => sound.unique other refers,
      List.count_eq_one_of_mem (sound.once l listens.1 listens.2) member⟩
  refine ⟨waiting, ?_⟩
  intro id newId accepted positive
  rcases step_accept s.engine id with none | refused | ⟨l, first, rest, slot, live, listener, queue,
    rc, _⟩
  · rw [none] at accepted
    cases accepted
  · rw [refused] at accepted
    cases accepted
    exact absurd positive (by decide)
  · rw [rc] at accepted
    cases accepted
    exact ⟨l, first, slot, slotOf_val first,
      waiting l first ⟨live, listener⟩ (queue ▸ List.mem_cons_self)⟩

end Sockets

/-- A peer's first segment for port 80, the last one of its handshake, and its reset. -/
def peerSyn : Bytes := [0, 9, 0, 80, 0, 0, 0, 5, 0, 0, 0, 0, 0x50, 0x02, 0, 0, 0, 0, 0, 0]
def peerAck : Bytes := [0, 9, 0, 80, 0, 0, 0, 6, 0, 0, 0, 2, 0x50, 0x10, 0, 0, 0, 0, 0, 0]
def peerReset : Bytes := [0, 9, 0, 80, 0, 0, 0, 6, 0, 0, 0, 2, 0x50, 0x04, 0, 0, 0, 0, 0, 0]

/-- A process listens on port 80, and a peer completes a handshake. -/
def oneWaits : List Action :=
  [.socket 1, .claim 1, .bind 1 0 80, .listen 1 0, .network (.packet 7 peerSyn 0),
    .network (.packet 7 peerAck 0)]

/-- A packet that is no reset spares everything. -/
theorem spared_packet {s : Sockets} {srcIp now : UInt32} {payload : Bytes}
    (plain : (parseSegment payload).all (fun seg => !seg.hasRst)) :
    s.Spared (.network (.packet srcIp payload now)) := by
  rintro ev same holder i _ cuts
  cases same
  obtain ⟨seg, mine, reset⟩ := cuts
  simp only [Engine.addressee] at mine
  split at mine
  · cases mine
  rename_i parsed
  obtain ⟨idx, _, same⟩ := Option.map_eq_some_iff.mp mine
  cases same
  rw [parsed] at plain
  simp [reset] at plain

/-- The connection that waits is an established one for port 80. -/
theorem backlog_integrity_one :
    ∃ s : Sockets, s.Attends ∧ (s.engine.conns 0).backlog.val = [1] ∧
      (s.engine.conns 0).localPort = 80 ∧ s.Awaits 0 1 := by
  have calm : ∀ {s : Sockets} {a : Action}, a.caller ≠ none → s.Spared a := by
    rintro s a caller ev rfl
    exact absurd rfl caller
  have open' : ∀ {s : Sockets} {a : Action}, (∀ pid, a ≠ .finishClose pid) → s.Attended a := by
    rintro s a other pid _ _ _ rfl
    exact absurd rfl (other pid)
  have listens : Sockets.Attends (Sockets.run {} (oneWaits.take 4)) :=
    (((Sockets.Attends.boot.step (calm (by decide)) (open' (by simp))).step (calm (by decide))
      (open' (by simp))).step (calm (by decide)) (open' (by simp))).step (calm (by decide))
        (open' (by simp))
  have run : Sockets.Attends (Sockets.run {} oneWaits) :=
    (listens.step (spared_packet (by decide)) (open' (by simp))).step (spared_packet (by decide))
      (open' (by simp))
  have queue : ((Sockets.run {} oneWaits).engine.conns 0).backlog.val = [1] := by decide
  refine ⟨_, run, queue, by decide, ?_⟩
  exact (Sockets.backlog_integrity run).1 0 1 ⟨by decide, by decide⟩
    (by rw [queue]; decide)

/-- A reset frees a connection that waits and leaves its number behind, which accepting returns. -/
theorem reset_stays_queued :
    let s := Sockets.run {} (oneWaits ++ [.network (.packet 7 peerReset 0)])
    (s.engine.conns 0).inUse ∧ (s.engine.conns 0).isListener ∧
      (s.engine.conns 0).backlog.val = [1] ∧ (s.engine.conns 1).inUse = false ∧
      (s.engine.step (.accept 0)).1.rc = some 1 := by
  decide

/-- The listener is closed during the handshake, and its slot goes to one on another port. -/
def otherListener : List Action :=
  [.socket 1, .claim 1, .bind 1 0 80, .listen 1 0, .network (.packet 7 peerSyn 0), .close 1 0,
    .finishClose 1, .socket 2, .claim 2, .bind 2 0 81, .listen 2 0,
    .network (.packet 7 peerAck 0)]

/-- The connection for port 80 waits with the listener on port 81. -/
example :
    let s := Sockets.run {} otherListener
    (s.engine.conns 0).backlog.val = [1] ∧ (s.engine.conns 0).localPort = 81 ∧
      (s.engine.conns 1).localPort = 80 := by
  decide

end NovaOs.Tcp
