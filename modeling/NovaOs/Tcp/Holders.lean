import NovaOs.Tcp.Slots
import NovaOs.Tcp.Syscalls

/-! Who keeps which slot, and that every section leaves a slot with one holder at most. -/

namespace NovaOs.Tcp

open List

/-- What a slot can be kept for. -/
inductive Holder where
  | handle (h : Handle)
  -- A process between two sections of a call.
  | process (pid : Int)
  -- A listener that the connection waits with.
  | listener (l : Slot)
  deriving DecidableEq, Repr

/-- The slot a process in the middle of a call has in its hands. -/
def Pending.held : Pending → Option Slot
  | .claim connId | .closing connId _ => slotOf connId
  | .accepting _ | .connecting _ => none

/-- Something keeps a slot. -/
def Sockets.Refers (s : Sockets) : Holder → Slot → Prop
  | .handle h, i =>
    (s.files h).inUse ∧ (s.files h).kind = .socket ∧ slotOf (s.files h).pipeId = some i
  | .process pid, i => (s.pending pid).bind Pending.held = some i
  | .listener l, i =>
    (s.engine.conns l).inUse ∧ (s.engine.conns l).isListener ∧ i ∈ (s.engine.conns l).backlog.val

/-- Every slot that is kept is kept for one holder, and is in use since that holder got it. -/
structure Sockets.Sound (s : Sockets) : Prop where
  unique : ∀ {a b : Holder} {i : Slot}, s.Refers a i → s.Refers b i → a = b
  calm : ∀ {a : Holder} {i : Slot}, s.Refers a i → (s.engine.conns i).Calm
  once : ∀ l, (s.engine.conns l).inUse → (s.engine.conns l).isListener →
    (s.engine.conns l).backlog.val.Nodup
  born : ∀ {h : Handle} {i : Slot}, s.Refers (.handle h) i → s.openedAt h = s.births i
  untouched : s.engine.Untouched

namespace Sockets

variable {s : Sockets} {a : Holder} {i l : Slot} {ev : Event} {pid : Int} {h : Handle}
  {next : Option Pending} {f : OpenFile} {s' : Sockets}

theorem advance_out : (s.advance ev).1 = (s.engine.step ev).1 := rfl

theorem advance_engine : (s.advance ev).2.engine = (s.engine.step ev).2 := rfl

/-- A slot that was in use is not given out again. -/
theorem advance_births (live : (s.engine.conns i).inUse) :
    (s.advance ev).2.births i = s.births i := by
  simp [advance, live]

/-- Whatever keeps a slot after a section kept it before, or the slot was just queued. -/
theorem refers_advance (refers : (s.advance ev).2.Refers a i) :
    s.Refers a i ∨ ∃ l srcIp payload now seg, a = .listener l ∧ ev = .packet srcIp payload now ∧
      s.engine.addressee srcIp payload = some (i, seg) ∧
      (s.engine.conns i).state = .synReceived ∧ (s.engine.conns i).listenerId = some l ∧
      (s.engine.step ev).2.conns i = (s.engine.conns i).handshaken seg.ack := by
  cases a with
  | handle | process => exact .inl refers
  | listener l => ?_
  obtain ⟨live, listener, member⟩ := refers
  rw [advance_engine] at live listener member
  have queue := step_queue live listener
  generalize queued : ((s.engine.step ev).2.conns l).backlog = backlog at queue member
  cases queue with
  | same before was => exact .inl ⟨before, was, member⟩
  | empty empty =>
    rw [empty] at member
    cases member
  | popped before was waiting =>
    exact .inl ⟨before, was, waiting ▸ mem_cons_of_mem _ member⟩
  | @pushed srcIp payload now seg idx _ mine half apart parent before was longer => ?_
  rw [longer, mem_append, mem_singleton] at member
  rcases member with member | rfl
  · exact .inl ⟨before, was, member⟩
  · rw [← queued] at longer
    exact .inr ⟨l, srcIp, payload, now, seg, rfl, rfl, mine, half, parent,
      pushed_established mine half apart longer⟩

/-- No section gives a kept slot away, if it cuts none and closes none. -/
theorem Sound.advance (sound : s.Sound) (spared : ∀ a i, s.Refers a i → ¬ ev.Cuts s.engine i)
    (closes : ∀ id l, ev = .close id → slotOf id = some l → ∀ a, ¬ s.Refers a l) :
    (s.advance ev).2.Sound := by
  have fresh : ∀ {a i}, (s.engine.conns i).state = .synReceived → ¬ s.Refers a i :=
    fun half refers => (sound.calm refers).notHalfOpen half
  -- A closed listener takes its backlog along, and nothing else keeps what was in there.
  have kept : ∀ {a i}, (s.advance ev).2.Refers a i → s.Refers a i →
      ((s.engine.step ev).2.conns i).Calm := by
    intro a i after before
    refine (sound.calm before).step (spared a i before) ?_
    rintro id l rfl slot
    refine ⟨fun same => closes id l rfl slot a (same ▸ before), ?_⟩
    intro live listener waiting
    have holder :=
      sound.unique before (show s.Refers (.listener l) i from ⟨live, listener, waiting⟩)
    subst holder
    cases after.1.symm.trans (close_listener slot live listener)
  refine ⟨?_, ?_, ?_, ?_, sound.untouched.step⟩
  · intro a b i first second
    rcases refers_advance first with first | ⟨l, _, _, _, _, rfl, _, _, half, parent, _⟩
    · rcases refers_advance second with second | ⟨_, _, _, _, _, _, _, _, half, _⟩
      · exact sound.unique first second
      · exact absurd first (fresh half)
    · rcases refers_advance second with second | ⟨l', _, _, _, _, rfl, _, _, _, parent', _⟩
      · exact absurd second (fresh half)
      · rw [Option.some.inj (parent.symm.trans parent')]
  · intro a i after
    rcases refers_advance after with before | ⟨_, _, _, _, seg, rfl, _, mine, half, _, established⟩
    · exact kept after before
    · have live := (addressee_live mine).1
      obtain ⟨going, unsent⟩ := sound.untouched i live half
      rw [advance_engine, established]
      exact ⟨live, going, unsent, by simp [TcpConn.handshaken]⟩
  · intro l live listener
    rw [advance_engine] at live listener ⊢
    have queue := step_queue live listener
    generalize ((s.engine.step ev).2.conns l).backlog = backlog at queue ⊢
    cases queue with
    | same before was => exact sound.once l before was
    | empty empty => rw [empty]; exact nodup_nil
    | popped before was waiting =>
      have all := sound.once l before was
      rw [waiting] at all
      exact (nodup_cons.mp all).2
    | pushed mine half apart parent before was longer => ?_
    have all := sound.once l before was
    rw [longer]
    refine nodup_append.mpr ⟨all, nodup_singleton _, ?_⟩
    rintro x member y last rfl
    rw [mem_singleton.mp last] at member
    exact fresh half (show s.Refers (.listener l) _ from ⟨before, was, member⟩)
  · intro h i refers
    have before : s.Refers (.handle h) i := refers
    rw [advance_births (sound.calm before).live]
    exact sound.born before

/-- A process that puts a slot down keeps nothing, and the others keep what they kept. -/
theorem refers_setPending (other : a ≠ .process pid) :
    (s.setPending pid next).Refers a i ↔ s.Refers a i := by
  cases a with
  | handle | listener => rfl
  | process pid' =>
    have apart : pid' ≠ pid := fun same => other (by rw [same])
    simp only [Refers, setPending, Function.update_of_ne apart]

theorem refers_setPending_self :
    (s.setPending pid next).Refers (.process pid) i ↔ next.bind Pending.held = some i := by
  simp only [Refers, setPending, Function.update_self]

theorem refers_setFile (other : a ≠ .handle h) : (s.setFile h f).Refers a i ↔ s.Refers a i := by
  cases a with
  | process | listener => rfl
  | handle h' =>
    have apart : h' ≠ h := fun same => other (by rw [same])
    simp only [Refers, setFile, Function.update_of_ne apart]

theorem refers_setFile_self : (s.setFile h f).Refers (.handle h) i ↔
    f.inUse ∧ f.kind = .socket ∧ slotOf f.pipeId = some i := by
  simp only [Refers, setFile, Function.update_self]

variable (sound : s.Sound)

include sound

/-- Slots may be let go. -/
theorem Sound.less (same : s'.engine = s.engine) (before : ∀ {a i}, s'.Refers a i → s.Refers a i)
    (born : ∀ {h i}, s'.Refers (.handle h) i → s'.openedAt h = s'.births i) : s'.Sound where
  unique first second := sound.unique (before first) (before second)
  calm refers := by rw [same]; exact sound.calm (before refers)
  once := by rw [same]; exact sound.once
  born := born
  untouched := by rw [same]; exact sound.untouched

/-- One holder may get a slot that nothing keeps. -/
theorem Sound.more {x : Holder} (same : s'.engine = s.engine)
    (before : ∀ {a j}, s'.Refers a j → s.Refers a j ∨ a = x ∧ j = i)
    (unkept : ∀ a, ¬ s.Refers a i) (calm : (s.engine.conns i).Calm)
    (born : ∀ {h i}, s'.Refers (.handle h) i → s'.openedAt h = s'.births i) : s'.Sound where
  unique := by
    intro a b j first second
    rcases before first with first | ⟨rfl, rfl⟩
    · rcases before second with second | ⟨_, rfl⟩
      · exact sound.unique first second
      · exact absurd first (unkept a)
    · rcases before second with second | ⟨rfl, _⟩
      · exact absurd second (unkept b)
      · rfl
  calm := by
    intro a j refers
    rw [same]
    rcases before refers with refers | ⟨_, rfl⟩
    · exact sound.calm refers
    · exact calm
  once := by rw [same]; exact sound.once
  born := born
  untouched := by rw [same]; exact sound.untouched

/-- Going on to wait, or ending a call, keeps no slot. -/
theorem Sound.release (nothing : next.bind Pending.held = none) :
    (s.setPending pid next).Sound := by
  refine sound.less rfl ?_ fun refers => sound.born refers
  intro a i refers
  by_cases same : a = .process pid
  · rw [same, refers_setPending_self, nothing] at refers
    cases refers
  · exact (refers_setPending same).mp refers

/-- A slot that nothing keeps can be taken in hand. -/
theorem Sound.take {next : Pending}
    (free : ∀ i, next.held = some i → (∀ a, ¬ s.Refers a i) ∧ (s.engine.conns i).Calm) :
    (s.setPending pid (some next)).Sound := by
  cases held : next.held with
  | none => exact sound.release held
  | some i => ?_
  have before : ∀ {a j}, (s.setPending pid (some next)).Refers a j →
      s.Refers a j ∨ a = .process pid ∧ j = i := by
    intro a j refers
    by_cases same : a = .process pid
    · rw [same, refers_setPending_self] at refers
      exact .inr ⟨same, Option.some.inj (refers.symm.trans held)⟩
    · exact .inl ((refers_setPending same).mp refers)
  exact sound.more rfl before (free i held).1 (free i held).2 fun refers => sound.born refers

/-- An entry that is no socket's keeps no slot. -/
theorem Sound.setFile (nothing : f.inUse → f.kind ≠ .socket) : (s.setFile h f).Sound := by
  have before : ∀ {a i}, (s.setFile h f).Refers a i → s.Refers a i := by
    intro a i refers
    by_cases same : a = .handle h
    · rw [same, refers_setFile_self] at refers
      exact absurd refers.2.1 (nothing refers.1)
    · exact (refers_setFile same).mp refers
  exact sound.less rfl before fun refers => sound.born (before refers)

/-- A slot that nothing keeps can be given a handle, which remembers how often it was given out. -/
theorem Sound.hand
    (free : ∀ i, slotOf f.pipeId = some i → (∀ a, ¬ s.Refers a i) ∧ (s.engine.conns i).Calm) :
    (s.hand h f).Sound := by
  have before : ∀ {a j}, (s.hand h f).Refers a j →
      s.Refers a j ∧ a ≠ .handle h ∨ a = .handle h ∧ slotOf f.pipeId = some j := by
    intro a j refers
    have refers : (s.setFile h f).Refers a j := by cases a <;> exact refers
    by_cases same : a = .handle h
    · rw [same, refers_setFile_self] at refers
      exact .inr ⟨same, refers.2.2⟩
    · exact .inl ⟨(refers_setFile same).mp refers, same⟩
  have born : ∀ {h' j}, (s.hand h f).Refers (.handle h') j →
      (s.hand h f).openedAt h' = (s.hand h f).births j := by
    intro h' j refers
    rcases before refers with ⟨kept, other⟩ | ⟨same, slot⟩
    · have apart : h' ≠ h := fun same => other (by rw [same])
      exact (Function.update_of_ne apart _ _).trans (sound.born kept)
    · cases same
      simp only [Sockets.hand, Function.update_self, slot]
      rfl
  cases slot : slotOf f.pipeId with
  | none =>
    refine sound.less rfl (fun refers => ?_) born
    rcases before refers with ⟨kept, _⟩ | ⟨_, some⟩
    · exact kept
    · exact absurd (slot.symm.trans some) (by simp)
  | some i => ?_
  have one : ∀ {a j}, (s.hand h f).Refers a j → s.Refers a j ∨ a = .handle h ∧ j = i := by
    intro a j refers
    exact (before refers).imp And.left fun ⟨same, there⟩ =>
      ⟨same, Option.some.inj (there.symm.trans slot)⟩
  exact sound.more rfl one (free i slot).1 (free i slot).2 born

/-- Nothing keeps a slot that is not in use. -/
theorem Sound.unkept (free : (s.engine.conns i).inUse = false) (a : Holder) : ¬ s.Refers a i :=
  fun refers => absurd (free.symm.trans (sound.calm refers).live) (by decide)

/-- Nothing else keeps a slot that a process puts down. -/
theorem Sound.put (held : s.Refers (.process pid) i) (a : Holder) :
    ¬ (s.setPending pid none).Refers a i := by
  intro refers
  by_cases same : a = .process pid
  · rw [same, refers_setPending_self] at refers
    cases refers
  · exact same (sound.unique ((refers_setPending same).mp refers) held)

/-- Nothing else keeps the slot of a handle that is closed. -/
theorem Sound.closed (held : s.Refers (.handle h) i) (gone : f.inUse = false) (a : Holder) :
    ¬ (s.setFile h f).Refers a i := by
  intro refers
  by_cases same : a = .handle h
  · rw [same, refers_setFile_self, gone] at refers
    cases refers.1
  · exact same (sound.unique ((refers_setFile same).mp refers) held)

end Sockets

/-- A section spares what is kept: no reset and no timer frees such a slot. -/
def Sockets.Spared (s : Sockets) (a : Action) : Prop :=
  ∀ ev, a = .network ev → ∀ holder i, s.Refers holder i → ¬ ev.Cuts s.engine i

namespace Sockets

variable {s : Sockets} {pid handle : Int} {ev : Event} {connId : Int}

theorem Sound.mild (sound : s.Sound) (mild : ev.Mild) : (s.advance ev).2.Sound := by
  apply sound.advance
  · intro a i _ cuts
    cases ev <;> first | exact mild | exact cuts
  · rintro id l rfl
    exact mild.elim

theorem mild_of_uses (uses : ev.Uses connId) : ev.Mild := by
  cases ev <;> trivial

/-- Such a section makes nothing keep a slot that did not keep it before. -/
theorem refers_mild {a : Holder} {i : Slot} (mild : ev.Mild)
    (refers : (s.advance ev).2.Refers a i) : s.Refers a i := by
  rcases refers_advance refers with before | ⟨_, _, _, _, _, _, rfl, _⟩
  · exact before
  · exact mild.elim

/-- The slot a process is given was free, so that nothing kept it, and nothing got to keep it
since. -/
theorem Sound.opened (sound : s.Sound) (rc : (s.advance .socket).1.rc.getD (-1) = connId)
    (taken : ¬ connId < 0) :
    ((s.advance .socket).2.setPending pid (some (.claim connId))).Sound := by
  subst rc
  refine (sound.mild (by trivial)).take ?_
  intro i held
  rcases step_socket s.engine with full | ⟨j, free, rc, fresh⟩
  · rw [advance_out, full] at taken
    exact absurd (by decide) taken
  rw [advance_out, rc] at held
  obtain rfl : j = i := Option.some.inj ((slotOf_val j).symm.trans held)
  refine ⟨fun a refers => sound.unkept free a (refers_mild (by trivial) refers), ?_⟩
  rw [advance_engine, fresh]
  exact ⟨rfl, rfl, rfl, .inl rfl⟩

/-- A slot that a process puts down is free for it or a handle to take up. -/
theorem Sound.down (sound : s.Sound) (pending : s.pending pid = some (.claim connId)) (i : Slot)
    (slot : slotOf connId = some i) :
    (∀ a, ¬ (s.setPending pid none).Refers a i) ∧ (s.engine.conns i).Calm := by
  have held : s.Refers (.process pid) i := by
    simpa [Sockets.Refers, pending, Pending.held] using slot
  exact ⟨sound.put held, sound.calm held⟩

/-- A connection that is accepted was kept by its listener only, and is off that backlog now. -/
theorem Sound.accepted {newConnId : Int} (sound : s.Sound)
    (accepted : (s.advance (.accept connId)).1.rc = some newConnId) (taken : ¬ newConnId < 0) :
    ((s.advance (.accept connId)).2.setPending pid (some (.claim newConnId))).Sound := by
  refine (sound.mild (by trivial)).take ?_
  intro i held
  rcases step_accept s.engine connId with waits | refused | ⟨l, first, rest, slot, live,
    listener, waiting, rc, popped⟩
  · rw [advance_out, waits] at accepted
    cases accepted
  · rw [advance_out, refused] at accepted
    cases accepted
    exact absurd (by decide) taken
  rw [advance_out, rc] at accepted
  cases accepted
  obtain rfl : first = i := Option.some.inj ((slotOf_val first).symm.trans held)
  have kept : s.Refers (.listener l) first := ⟨live, listener, waiting ▸ mem_cons_self⟩
  have once := sound.once l live listener
  rw [waiting, nodup_cons] at once
  have calm : ((s.engine.step (.accept connId)).2.conns first).Calm :=
    (sound.calm kept).step id fun _ _ same => by cases same
  refine ⟨?_, calm⟩
  intro a refers
  obtain rfl := sound.unique (refers_mild (by trivial) refers) kept
  have member := refers.2.2
  rw [advance_engine, popped] at member
  exact once.1 member

/-- Every section that spares what is kept leaves every slot with one holder at most. -/
theorem Sound.step {a : Action} (sound : s.Sound) (spared : s.Spared a) : (s.step a).2.Sound := by
  have move := s.step_move a
  generalize (s.step a).2 = after at move ⊢
  cases move with
  | idle => exact sound
  | used _ _ uses => exact sound.mild (mild_of_uses uses)
  | refused | polled => exact sound.mild trivial
  | opened _ rc taken => exact sound.opened rc taken
  | @crowded pid connId pending =>
    have up := @Sound.take _ pid (sound.release rfl) (.closing connId (some (-1)))
      (sound.down pending)
    simpa only [Sockets.setPending, Function.update_idem] using up
  | @claimed pid connId h pending =>
    exact @Sound.hand _ h ⟨true, pid, .socket, connId⟩ (sound.release rfl) (sound.down pending)
  | closed => exact sound.setFile nofun
  | @closing _ _ h _ mine kind =>
    have gone : (s.setFile h { s.files h with inUse := false }).Sound :=
      sound.setFile nofun
    refine gone.take fun i slot => ?_
    have held : s.Refers (.handle h) i := ⟨mine.1, kind, slot⟩
    exact ⟨sound.closed held rfl, sound.calm held⟩
  | @gone pid connId _ pending =>
    have down : (s.setPending pid none).Sound := sound.release rfl
    -- The slot is in nobody's hands any more when the engine closes it.
    have closed : ((s.setPending pid none).advance (.close connId)).2.Sound := by
      apply down.advance
      · intro a i _ cuts
        exact cuts
      · rintro id l same slot a
        cases same
        refine sound.put ?_ a
        simpa [Sockets.Refers, pending, Pending.held] using slot
    exact closed
  | accepting | connected => exact sound.release rfl
  | failed | connecting | timedOut => exact (sound.mild (by trivial)).release rfl
  | accepted _ rc taken => exact sound.accepted rc taken
  | filed other => exact sound.setFile fun _ => other
  | network outside =>
    refine sound.advance (spared _ rfl) ?_
    rintro id l rfl
    cases outside

end Sockets

end NovaOs.Tcp
