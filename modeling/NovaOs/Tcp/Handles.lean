import NovaOs.Tcp.Holders

/-! No two handles stand for one connection, unless a reset or a timer frees one that is kept. -/

namespace NovaOs.Tcp

/-- The connection a process waits for in the middle of a call. -/
def Pending.awaits : Pending → Option Int
  | .accepting connId | .connecting connId => some connId
  | .claim _ | .closing _ _ => none

/-- A process that waits in a call has a handle for what it waits for. -/
def Sockets.Calling (s : Sockets) : Prop :=
  ∀ pid connId, (s.pending pid).bind Pending.awaits = some connId →
    ∃ h, s.files h = { inUse := true, ownerPid := pid, kind := .socket, pipeId := connId }

namespace Sockets

variable {s : Sockets} {pid handle : Int} {h : Handle}

/-- A process goes on with a call it has the handle for, or with none. -/
theorem Calling.setPending (calling : s.Calling) {next : Option Pending}
    (entry : ∀ connId, next.bind Pending.awaits = some connId →
      ∃ h, s.files h = { inUse := true, ownerPid := pid, kind := .socket, pipeId := connId }) :
    (s.setPending pid next).Calling := by
  intro pid' connId waits
  by_cases same : pid' = pid
  · subst same
    simp only [Sockets.setPending, Function.update_self] at waits
    exact entry connId waits
  · simp only [Sockets.setPending, Function.update_of_ne same] at waits
    exact calling pid' connId waits

/-- An entry may change while its owner waits for nothing. -/
theorem Calling.setFile (calling : s.Calling) {f : OpenFile}
    (idle : (s.files h).inUse → (s.pending (s.files h).ownerPid).bind Pending.awaits = none) :
    (s.setFile h f).Calling := by
  intro pid connId waits
  obtain ⟨k, entry⟩ := calling pid connId waits
  by_cases same : k = h
  · subst same
    rw [entry] at idle
    exact absurd ((idle rfl).symm.trans waits) (by simp)
  · exact ⟨k, by simpa only [Sockets.setFile, Function.update_of_ne same] using entry⟩

/-- Every section leaves a process that waits with the handle it needs. -/
theorem Calling.step {a : Action} (calling : s.Calling) : (s.step a).2.Calling := by
  have move := s.step_move a
  -- What the engine does touches neither handles nor calls.
  have engine : ∀ ev, (s.advance ev).2.Calling := fun _ => calling
  generalize (s.step a).2 = after at move ⊢
  cases move with
  | idle => exact calling
  | used | refused | polled | network => exact engine _
  | opened | accepted => exact (engine _).setPending (by simp [Pending.awaits])
  | crowded => exact calling.setPending (by simp [Pending.awaits])
  | @claimed pid connId h _ unused =>
    have filed : (s.setFile h ⟨true, pid, .socket, connId⟩).Calling :=
      calling.setFile fun live => by simp [live] at unused
    have handed : (s.hand h ⟨true, pid, .socket, connId⟩).Calling := filed
    exact handed.setPending (by simp)
  | closed free mine =>
    exact calling.setFile fun _ => by rw [mine.2, free]; rfl
  | @closing _ _ h free mine =>
    have filed : (s.setFile h { s.files h with inUse := false }).Calling :=
      calling.setFile fun _ => by rw [mine.2, free]; rfl
    exact filed.setPending (by simp [Pending.awaits])
  | gone | failed | timedOut => exact (engine _).setPending (by simp)
  | accepting _ entry => exact calling.setPending fun connId waits => by cases waits; exact entry
  | connecting _ entry =>
    exact (engine _).setPending fun connId waits => by cases waits; exact entry
  | connected => exact calling.setPending (by simp)
  | filed _ unused => exact calling.setFile fun live => by simp [live] at unused

end Sockets

/-- The slot a process's section is about. -/
def Event.target : Event → Option Slot
  | .bind id _ | .listen id | .accept id | .connectBegin id _ _ _ _ | .send id _ | .recv id _
  | .close id => slotOf id
  | .connectTimeout idx => some idx
  | _ => none

/-- A process's section changes no slot in use but its own, and a listener's with what waits
there. -/
theorem step_elsewhere {e : Engine} {ev : Event} {i : Slot} (live : (e.conns i).inUse)
    (inside : ev.external = false) (apart : ev.target ≠ some i)
    (unqueued : ∀ l, ev.target = some l → (e.conns l).inUse → (e.conns l).isListener →
      i ∉ (e.conns l).backlog.val) :
    (e.step ev).2.conns i = e.conns i := by
  have change := step_change e ev i
  generalize (e.step ev).2.conns i = after at change ⊢
  cases change with
  | same => rfl
  | opened free => exact absurd (free.symm.trans live) (by decide)
  | bound slot | listening slot | popped slot | connecting slot | buffered slot | read slot
  | freed slot | closing slot =>
    exact absurd slot apart
  | timedOut => exact absurd rfl apart
  | abandoned slot before was waiting => exact absurd waiting (unqueued _ slot before was)
  | _ => cases inside

namespace Sockets

variable {s : Sockets} {pid handle : Int} {h k : Handle} {i l : Slot} {ev : Event} {connId : Int}

theorem uses_own (uses : ev.Uses connId) : ev.external = false ∧ ev.target = slotOf connId := by
  cases ev <;> first | exact uses.elim | exact ⟨rfl, congrArg slotOf uses⟩

/-- A section on a slot that something else keeps leaves a handle's connection alone. -/
theorem Sound.elsewhere {a : Holder} (sound : s.Sound) (held : s.Refers (.handle k) i)
    (inside : ev.external = false)
    (mine : ∀ l, ev.target = some l → s.Refers a l ∧ a ≠ .handle k) :
    (s.advance ev).2.engine.conns i = s.engine.conns i := by
  refine step_elsewhere (sound.calm held).live inside ?_ ?_
  · intro same
    obtain ⟨kept, other⟩ := mine i same
    exact other (sound.unique kept held)
  · intro l _ live listener waiting
    have queued : s.Refers (.listener l) i := ⟨live, listener, waiting⟩
    exact absurd (sound.unique queued held) (by simp)

/-- A process's own handle is another than one that another process has. -/
theorem own_handle (other : (s.files k).ownerPid ≠ pid)
    (entry : s.files h = { inUse := true, ownerPid := pid, kind := .socket, pipeId := connId })
    (slot : slotOf connId = some l) : s.Refers (.handle h) l ∧ Holder.handle h ≠ .handle k := by
  refine ⟨by simp [Refers, entry, slot], ?_⟩
  rintro same
  cases same
  exact other (by rw [entry])

/-- Nothing a process calls reaches a connection that another process has a handle for. -/
theorem Sound.isolated {a : Action} (sound : s.Sound) (calling : s.Calling)
    (caller : a.caller = some pid) (held : s.Refers (.handle k) i)
    (other : (s.files k).ownerPid ≠ pid) :
    (s.step a).2.engine.conns i = s.engine.conns i := by
  -- A section on the connection of one of the process's own handles.
  have apart : ∀ (ev : Event) (connId : Int), ev.external = false → ev.target = slotOf connId →
      s.Has pid connId → (s.advance ev).2.engine.conns i = s.engine.conns i := by
    rintro ev connId inside target ⟨h, entry⟩
    exact sound.elsewhere held inside fun l slot => own_handle other entry (target.symm.trans slot)
  have turn : ∀ {connId : Int}, s.pending pid = some (.accepting connId) →
      (s.advance (.accept connId)).2.engine.conns i = s.engine.conns i := fun pending =>
    apart _ _ rfl rfl (calling pid _ (by simp [pending, Pending.awaits]))
  have first : (s.engine.step .socket).2.conns i = s.engine.conns i :=
    step_elsewhere (sound.calm held).live rfl (by simp [Event.target]) (by simp [Event.target])
  have move := s.step_move a
  generalize (s.step a).2 = after at move ⊢
  cases move with
  | idle | crowded | claimed | closed | closing | accepting | connected | filed => rfl
  | @used _ _ _ ev same entry uses =>
    cases caller.symm.trans same
    exact apart ev _ (uses_own uses).1 (uses_own uses).2 entry
  | refused | opened => exact first
  | @gone _ connId _ pending =>
    cases caller
    -- The slot that is closed is in the process's hands, and in nobody else's.
    have mine : ∀ l, slotOf connId = some l →
        s.Refers (.process pid) l ∧ Holder.process pid ≠ .handle k :=
      fun l slot => ⟨by simpa [Refers, pending, Pending.held] using slot, by simp⟩
    have apart : (s.advance (.close connId)).2.engine.conns i = s.engine.conns i :=
      sound.elsewhere held rfl mine
    exact apart
  | polled pending | failed pending | accepted pending => cases caller; exact turn pending
  | @connecting _ _ connId ip isn rto port _ entry =>
    cases caller
    exact apart (.connectBegin connId ip port isn rto) connId rfl rfl entry
  | @timedOut _ connId idx pending slot =>
    cases caller
    exact apart (.connectTimeout idx) connId rfl slot.symm
      (calling pid connId (by simp [pending, Pending.awaits]))
  | network => cases caller

/-- States that runs from the start lead to, while no section frees a slot that is kept. -/
inductive Spares : Sockets → Prop
  | boot : Spares {}
  | step {s : Sockets} {a : Action} (before : Spares s) (spared : s.Spared a) : Spares (s.step a).2

theorem boot_sound : Sound {} where
  unique first := by
    rename_i a b i
    cases a <;> simp [Refers] at first
  calm first := by
    rename_i a i
    cases a <;> simp [Refers] at first
  once _ live := by cases live
  born first := by simp [Refers] at first
  untouched _ live := by cases live

theorem Spares.sound (run : Spares s) : s.Sound ∧ s.Calling := by
  induction run with
  | boot => exact ⟨boot_sound, fun _ _ waits => by simp at waits⟩
  | step _ spared ih => exact ⟨ih.1.step spared, ih.2.step⟩

/--
Handles never share a connection, as long as no reset and no timer frees one that is kept.

The connection of a handle is the one the handle was opened for, and no call of another process
reaches it.
-/
theorem socket_handles_apart (run : Spares s) :
    (∀ h k i, s.Refers (.handle h) i → s.Refers (.handle k) i → h = k) ∧
      (∀ h i, s.Refers (.handle h) i →
        (s.engine.conns i).inUse ∧ s.openedAt h = s.births i) ∧
      ∀ a pid k i, Action.caller a = some pid → s.Refers (.handle k) i →
        (s.files k).ownerPid ≠ pid → (s.step a).2.engine.conns i = s.engine.conns i := by
  obtain ⟨sound, calling⟩ := run.sound
  refine ⟨?_, ?_, ?_⟩
  · intro h k i first second
    cases sound.unique first second
    rfl
  · intro h i held
    exact ⟨(sound.calm held).live, sound.born held⟩
  · intro a pid k i caller held other
    exact sound.isolated calling caller held other

end Sockets

/-- Two processes open a socket each. -/
def twoSockets : List Action := [.socket 1, .claim 1, .socket 2, .claim 2]

/-- The two sockets are different connections. -/
theorem socket_handles_apart_two :
    ∃ s : Sockets, s.Spares ∧ s.Refers (.handle 0) 0 ∧ s.Refers (.handle 1) 1 ∧
      ∀ i, s.Refers (.handle 0) i → ¬ s.Refers (.handle 1) i := by
  have calm : ∀ {s : Sockets} {a : Action}, a.caller ≠ none → s.Spared a := by
    rintro s a caller ev rfl
    exact absurd rfl caller
  have run : Sockets.Spares (Sockets.run {} twoSockets) :=
    (((Sockets.Spares.boot.step (calm (by decide))).step (calm (by decide))).step
      (calm (by decide))).step (calm (by decide))
  refine ⟨_, run, ⟨by decide, by decide, by decide⟩,
    ⟨by decide, by decide, by decide⟩, ?_⟩
  intro i first second
  exact absurd ((Sockets.socket_handles_apart run).1 0 1 i first second) (by decide)

/-- A reset for the first port of the dynamic range. -/
def sampleReset : Bytes := [0, 9, 0xC0, 0, 0, 0, 0, 0, 0, 0, 0, 0, 0x50, 0x04, 0, 0, 0, 0, 0, 0]

/-- A process connects, its peer resets the connection, and another process opens a socket. -/
def takenOver : Sockets := Sockets.run {}
  [.socket 1, .claim 1, .connect 1 0 7 9 0 0, .network (.packet 7 sampleReset 5), .socket 2,
    .claim 2]

/-- Both processes have a handle for one connection, and the first closes it for the second. -/
theorem reset_shares_slot :
    takenOver.files 0 = { inUse := true, ownerPid := 1, kind := .socket, pipeId := 0 } ∧
      takenOver.files 1 = { inUse := true, ownerPid := 2, kind := .socket, pipeId := 0 } ∧
      (takenOver.engine.conns 0).inUse ∧
      let later := takenOver.run [.connectTimeout 1, .close 1 0, .finishClose 1]
      (later.files 1).inUse ∧ (later.engine.conns 0).inUse = false := by
  decide

end NovaOs.Tcp
