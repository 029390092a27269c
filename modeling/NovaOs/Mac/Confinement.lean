import NovaOs.Mac.Evaluation

/-! Confinement only ever grows: what a process is refused, its descendants are refused. -/

namespace NovaOs.Confine

open Function

namespace System

variable {after : System} {id : UInt16} {i : Fin maxProfiles}

/-- What holds of the processes and profiles of every reachable system. -/
structure Sound (system : System) : Prop where
  -- Every stack is shallow and names loaded profiles.
  confined : ∀ pid proc, system.procs pid = some proc → proc.stack.length ≤ maxStack ∧
    ∀ id ∈ proc.stack, ∃ i, system.mac.slotOf? id = some i
  unborn : ∀ pid, system.nextPid ≤ pid → system.procs pid = none
  -- A process starts with the stack of whoever forked or started it, and may add to it.
  parents : ∀ pid proc parent, system.procs pid = some proc → proc.parent = some parent →
    ∃ older, system.procs parent = some older ∧ older.stack <+: proc.stack
  texts : ∀ i, (system.mac.slots i).inUse = true → ∃ text,
    ((system.mac.slots i).name, text) ∈ system.loaded ∧
      parse text = .ok (system.mac.slots i).policy

/-- What never changes again: processes' stacks, loaded profiles, and everything once frozen. -/
structure Extends (before after : System) : Prop where
  procs : ∀ pid proc, before.procs pid = some proc → after.procs pid = some proc
  kept : ∀ i, (before.mac.slots i).inUse = true → (after.mac.slots i).inUse = true ∧
    (after.mac.slots i).name = (before.mac.slots i).name ∧
    (after.mac.slots i).policy = (before.mac.slots i).policy
  frozen : before.mac.frozen = true → after.mac.frozen = true ∧
    ∀ i, (after.mac.slots i).inUse = true → (before.mac.slots i).inUse = true

theorem Extends.refl (system : System) : Extends system system where
  procs _ _ here := here
  kept _ used := ⟨used, rfl, rfl⟩
  frozen cold := ⟨cold, fun _ used => used⟩

theorem Extends.trans {one two three : System} (first : Extends one two)
    (second : Extends two three) : Extends one three where
  procs pid proc here := second.procs pid proc (first.procs pid proc here)
  kept i used := by
    obtain ⟨still, name, policy⟩ := first.kept i used
    obtain ⟨again, name', policy'⟩ := second.kept i still
    exact ⟨again, name'.trans name, policy'.trans policy⟩
  frozen cold := by
    obtain ⟨still, old⟩ := first.frozen cold
    obtain ⟨again, older⟩ := second.frozen still
    exact ⟨again, fun i used => old i (older i used)⟩

variable {system : System}

/-- A loaded profile stays loaded, so a stack entry that named one still does. -/
theorem Extends.slotOf? (extends_ : Extends system after) (named : system.mac.slotOf? id = some i) :
    after.mac.slotOf? id = some i := by
  obtain ⟨number, used⟩ := Mac.slotOf?_eq_some.mp named
  exact Mac.slotOf?_eq_some.mpr ⟨number, (extends_.kept i used).1⟩

section

variable (sound : Sound system)

include sound

/-- A question changes nothing that matters. -/
theorem Sound.check (stack : List UInt16) (pid : Pid) (action : Action) :
    Sound (system.check stack pid action).2 ∧ Extends system (system.check stack pid action).2 := by
  have alike := (system.mac.check_spec stack pid action).1
  constructor
  · refine ⟨?_, sound.unborn, sound.parents, ?_⟩
    · intro other proc here
      obtain ⟨shallow, named⟩ := sound.confined other proc here
      refine ⟨shallow, fun id member => ?_⟩
      obtain ⟨i, slot⟩ := named id member
      exact ⟨i, (alike.slotOf? id).trans slot⟩
    · intro i used
      rw [System.check] at used ⊢
      simp only [alike.inUse, alike.name, alike.policy] at used ⊢
      exact sound.texts i used
  · refine ⟨fun _ _ here => here, ?_, ?_⟩
    · intro i used
      exact ⟨(alike.inUse i).trans used, alike.name i, alike.policy i⟩
    · intro cold
      exact ⟨alike.frozen.trans cold, fun i used => (alike.inUse i).symm.trans used⟩

/-- Freezing changes no profile. -/
theorem Sound.freeze :
    Sound { system with mac := system.mac.freeze } ∧
      Extends system { system with mac := system.mac.freeze } := by
  have ⟨confined, unborn, parents, texts⟩ := sound
  exact ⟨⟨confined, unborn, parents, texts⟩,
    ⟨fun _ _ here => here, fun _ used => ⟨used, rfl, rfl⟩, fun _ => ⟨rfl, fun _ used => used⟩⟩⟩

/-- A profile that is loaded takes a slot no stack names yet, or was there already. -/
theorem Sound.load (name text : List UInt8) :
    Sound (system.load name text).2 ∧ Extends system (system.load name text).2 ∧
      ∀ id, (system.load name text).1 = .ok id →
        ∃ i, (system.load name text).2.mac.slotOf? id = some i := by
  have ⟨confined, unborn, parents, texts⟩ := sound
  unfold System.load
  rcases system.mac.load_cases name text with
    ⟨error, same⟩ | ⟨i, policy, read, ⟨used, _, _, same⟩ | ⟨warm, free, same⟩⟩
  · rw [same]
    exact ⟨sound, .refl system, fun id ok => by cases ok⟩
  · -- The table stays, and one more text has been seen.
    rw [same]
    refine ⟨⟨confined, unborn, parents, ?_⟩, ?_, ?_⟩
    · intro j usedJ
      obtain ⟨text', member, reads⟩ := texts j usedJ
      exact ⟨text', List.mem_cons_of_mem _ member, reads⟩
    · exact ⟨fun _ _ here => here, fun _ used => ⟨used, rfl, rfl⟩,
        fun cold => ⟨cold, fun _ used => used⟩⟩
    · intro id ok
      cases ok
      exact ⟨i, Mac.slotOf?_eq_some.mpr ⟨rfl, used⟩⟩
  · rw [same]
    -- Every other slot is as it was, and the one taken was free.
    have others : ∀ j, (system.mac.slots j).inUse = true → j ≠ i := by
      intro j usedJ here
      rw [here, free] at usedJ
      cases usedJ
    have kept : Extends system
        { system with
          mac := system.mac.setSlot i { inUse := true, name := name, policy := policy }
          loaded := (name, text) :: system.loaded } := by
      refine ⟨fun _ _ here => here, ?_, ?_⟩
      · intro j usedJ
        simp only [Mac.setSlot, update_of_ne (others j usedJ)]
        exact ⟨usedJ, trivial, trivial⟩
      · intro cold
        rw [warm] at cold
        cases cold
    refine ⟨⟨?_, unborn, parents, ?_⟩, kept, ?_⟩
    · intro pid proc here
      obtain ⟨shallow, named⟩ := confined pid proc here
      refine ⟨shallow, fun id member => ?_⟩
      obtain ⟨j, slot⟩ := named id member
      exact ⟨j, kept.slotOf? slot⟩
    · intro j
      by_cases here : j = i
      · subst here
        simp only [Mac.setSlot, update_self]
        exact fun _ => ⟨text, List.mem_cons_self, read⟩
      · simp only [Mac.setSlot, update_of_ne here]
        intro usedJ
        obtain ⟨text', member, reads⟩ := texts j usedJ
        exact ⟨text', List.mem_cons_of_mem _ member, reads⟩
    · intro id ok
      cases ok
      refine ⟨i, Mac.slotOf?_eq_some.mpr ⟨rfl, ?_⟩⟩
      simp only [Mac.setSlot, update_self]

/-- A new process whose stack is in order. -/
theorem Sound.create {proc : Proc} (shallow : proc.stack.length ≤ maxStack)
    (named : ∀ id ∈ proc.stack, ∃ i, system.mac.slotOf? id = some i)
    (parent : ∀ pid, proc.parent = some pid →
      ∃ older, system.procs pid = some older ∧ older.stack <+: proc.stack) :
    Sound (system.create proc) ∧ Extends system (system.create proc) := by
  -- The pid given out belonged to nobody, so no process is overwritten.
  have fresh : ∀ pid older, system.procs pid = some older → pid ≠ system.nextPid := by
    intro pid older here same
    rw [same, sound.unborn _ (Nat.le_refl _)] at here
    cases here
  have kept : ∀ pid older, system.procs pid = some older →
      (system.create proc).procs pid = some older := by
    intro pid older here
    simp only [System.create, update_of_ne (fresh pid older here)]
    exact here
  have born : ∀ pid other, (system.create proc).procs pid = some other →
      other = proc ∨ system.procs pid = some other := by
    intro pid other here
    simp only [System.create] at here
    by_cases new : pid = system.nextPid
    · subst new
      rw [update_self] at here
      cases here
      exact .inl rfl
    · rw [update_of_ne new] at here
      exact .inr here
  refine ⟨⟨?_, ?_, ?_, sound.texts⟩, ⟨kept, fun _ used => ⟨used, rfl, rfl⟩,
    fun cold => ⟨cold, fun _ used => used⟩⟩⟩
  · intro pid other here
    rcases born pid other here with rfl | old
    · exact ⟨shallow, named⟩
    · exact sound.confined pid other old
  · intro pid later
    simp only [System.create] at later ⊢
    rw [update_of_ne (Nat.ne_of_gt later)]
    exact sound.unborn pid (Nat.le_of_succ_le later)
  · intro pid other by_ here parentIs
    rcases born pid other here with rfl | old
    · obtain ⟨older, alive, starts⟩ := parent by_ parentIs
      exact ⟨older, kept by_ older alive, starts⟩
    · obtain ⟨older, alive, starts⟩ := sound.parents pid other by_ old parentIs
      exact ⟨older, kept by_ older alive, starts⟩

/-- A program's own profile is none or a loaded one. -/
theorem Sound.ownProfile (path : List UInt8) (readFile : List UInt8 → Option (List UInt8)) :
    Sound (system.ownProfile path readFile).2 ∧
      Extends system (system.ownProfile path readFile).2 ∧
      ∀ id, (system.ownProfile path readFile).1 = .ok id → id ≠ 0 →
        ∃ i, (system.ownProfile path readFile).2.mac.slotOf? id = some i := by
  have without : ∀ id : UInt16, (Except.ok 0 : Except LoadError UInt16) = .ok id → id ≠ 0 →
      ∃ i, system.mac.slotOf? id = some i := by
    intro id none_ some_
    cases none_
    exact absurd rfl some_
  unfold System.ownProfile
  dsimp only
  split
  · split
    · rename_i text _
      obtain ⟨loaded, onLoad, id⟩ := sound.load (baseOf path) text
      exact ⟨loaded, onLoad, fun newId ok _ => id newId ok⟩
    · exact ⟨sound, .refl system, without⟩
  · exact ⟨sound, .refl system, without⟩

/-- Deciding about a program keeps everything, and the stack it gets is in order. -/
theorem Sound.macPrepareExec (spawner : Option (Pid × Proc))
    (alive : ∀ pid proc, spawner = some (pid, proc) → system.procs pid = some proc)
    (path : Option (List UInt8)) (readFile : List UInt8 → Option (List UInt8)) :
    Sound (system.macPrepareExec spawner path readFile).2 ∧
      Extends system (system.macPrepareExec spawner path readFile).2 ∧
      ∀ stack, (system.macPrepareExec spawner path readFile).1 = some stack →
        stack.length ≤ maxStack ∧
        (∀ id ∈ stack, ∃ i,
          (system.macPrepareExec spawner path readFile).2.mac.slotOf? id = some i) ∧
        (spawner.map (·.2.stack)).getD [] <+: stack := by
  have named : ∀ id ∈ (spawner.map (·.2.stack)).getD [], ∃ i, system.mac.slotOf? id = some i := by
    cases spawner with
    | none => exact fun _ member => by cases member
    | some spawner =>
      obtain ⟨pid, proc⟩ := spawner
      exact (sound.confined pid proc (alive pid proc rfl)).2
  unfold System.macPrepareExec
  split
  · exact ⟨sound, .refl system, fun _ started => by cases started⟩
  rename_i path copied
  dsimp only
  -- First the spawner is asked, then the program's own profile is loaded.
  obtain ⟨asked, onAsk⟩ := sound.check ((spawner.map (·.2.stack)).getD [])
    ((spawner.map (·.1)).getD 0) (.exec path)
  split
  · exact ⟨asked, onAsk, fun _ started => by cases started⟩
  obtain ⟨loaded, onLoad, own⟩ := asked.ownProfile path readFile
  have onward := onAsk.trans onLoad
  split
  · rename_i failed
    rw [failed] at loaded onward
    exact ⟨loaded, onward, fun _ started => by cases started⟩
  rename_i newId after ended
  rw [ended] at loaded onward own
  split
  · exact ⟨loaded, onward, fun _ started => by cases started⟩
  rename_i stack pushed
  obtain ⟨shallow, starts, members⟩ := Mac.execStack_ok pushed
  refine ⟨loaded, onward, ?_⟩
  intro stack' started
  cases started
  refine ⟨shallow, fun id member => ?_, starts⟩
  rcases members id member with old | ⟨new, some_⟩
  · obtain ⟨i, slot⟩ := named id old
    exact ⟨i, onward.slotOf? slot⟩
  · rw [new]
    exact own newId rfl some_

/-- A program that starts is bound by its spawner's profiles and its own. -/
theorem Sound.exec (spawner : Option (Pid × Proc))
    (alive : ∀ pid proc, spawner = some (pid, proc) → system.procs pid = some proc)
    (path : Option (List UInt8)) (readFile : List UInt8 → Option (List UInt8)) (starts : Bool) :
    Sound (system.exec spawner path readFile starts) ∧
      Extends system (system.exec spawner path readFile starts) := by
  obtain ⟨ready, onReady, stackIs⟩ := sound.macPrepareExec spawner alive path readFile
  unfold System.exec
  split
  · rename_i after refused
    rw [refused] at ready onReady
    exact ⟨ready, onReady⟩
  rename_i stack after allowed
  rw [allowed] at ready onReady stackIs
  split
  · obtain ⟨shallow, named, begins⟩ := stackIs stack rfl
    refine (ready.create shallow named ?_).imp id onReady.trans
    -- The spawner is still there, with the stack it had.
    intro pid parentIs
    cases spawner with
    | none => cases parentIs
    | some spawner =>
      obtain ⟨by_, proc⟩ := spawner
      cases parentIs
      exact ⟨proc, onReady.procs by_ proc (alive by_ proc rfl), begins⟩
  · exact ⟨ready, onReady⟩

/-- Every operation keeps what holds and what never changes. -/
theorem Sound.step (op : Op) : Sound (system.step op) ∧ Extends system (system.step op) := by
  cases op with
  | load name text =>
    obtain ⟨loaded, onLoad, _⟩ := sound.load name text
    exact ⟨loaded, onLoad⟩
  | freeze => exact sound.freeze
  | spawn isUser =>
    refine sound.create (Nat.zero_le _) ?_ ?_
    · exact fun _ member => by cases member
    · exact fun _ parent => by cases parent
  | fork parent =>
    simp only [System.step]
    split
    · rename_i proc here
      obtain ⟨shallow, named⟩ := sound.confined parent proc here
      refine sound.create shallow named ?_
      intro pid parentIs
      cases parentIs
      exact ⟨proc, here, List.prefix_rfl⟩
    · exact ⟨sound, .refl system⟩
  | exec spawner path readFile starts =>
    cases spawner with
    | none => exact sound.exec none (fun _ _ nobody => by cases nobody) path readFile starts
    | some pid => ?_
    simp only [System.step]
    split
    · rename_i proc here
      refine sound.exec (some (pid, proc)) ?_ path readFile starts
      intro _ _ same
      cases same
      exact here
    · exact ⟨sound, .refl system⟩
  | check pid action =>
    simp only [System.step]
    split
    · exact sound.check _ pid action
    · exact ⟨sound, .refl system⟩

/-- So does any history. -/
theorem Sound.run (ops : List Op) : Sound (system.run ops) ∧ Extends system (system.run ops) := by
  induction ops generalizing system with
  | nil => exact ⟨sound, .refl system⟩
  | cons op rest ih =>
    obtain ⟨next, onStep⟩ := sound.step op
    obtain ⟨final, onRest⟩ := ih next
    exact ⟨final, onStep.trans onRest⟩

end

/-- Nothing is loaded and nobody runs when the system starts. -/
theorem Sound.boot : Sound {} where
  confined := by
    intro pid proc here
    cases here
  unborn _ _ := rfl
  parents := by
    intro pid proc parent here
    cases here
  texts := by
    intro i used
    cases used

/-- A descendant's stack begins with its ancestor's. -/
theorem Sound.descends (sound : Sound system) {ancestor pid : Pid} {proc : Proc}
    (alive : system.procs ancestor = some proc) (descends : Descends system ancestor pid) :
    ∃ younger, system.procs pid = some younger ∧ proc.stack <+: younger.stack := by
  induction descends with
  | self => exact ⟨proc, alive, List.prefix_rfl⟩
  | child parent born by_ ih =>
    obtain ⟨older, here, begins⟩ := ih
    obtain ⟨older', here', extends_⟩ := sound.parents _ _ _ born by_
    rw [here] at here'
    cases here'
    exact ⟨_, born, begins.trans extends_⟩

/-- Whatever refuses now will refuse, in every stack that it is on. -/
theorem Extends.denies (extends_ : Extends system after) {allowed : Policy → Bool}
    (named : system.mac.slotOf? id = some i) (denies : system.mac.Denies allowed id) :
    after.mac.Denies allowed id := by
  intro j named'
  rw [extends_.slotOf? named] at named'
  cases named'
  obtain ⟨_, used⟩ := Mac.slotOf?_eq_some.mp named
  rw [(extends_.kept i used).2.2]
  exact denies i named

end System

/--
Over any history from boot and any continuation of it: what a process is refused, its
descendants are refused ever after; a loaded profile keeps its name and its policy; and once
the policy is frozen, every profile on every stack is one whose text was loaded before.
-/
theorem confinement_monotone (ops later : List Op) :
    (∀ pid descendant action, (System.run {} ops).Refuses pid action →
      ((System.run {} ops).run later).Descends pid descendant →
      ((System.run {} ops).run later).Refuses descendant action) ∧
    (∀ i, ((System.run {} ops).mac.slots i).inUse = true →
      (((System.run {} ops).run later).mac.slots i).inUse = true ∧
      (((System.run {} ops).run later).mac.slots i).name
        = ((System.run {} ops).mac.slots i).name ∧
      (((System.run {} ops).run later).mac.slots i).policy
        = ((System.run {} ops).mac.slots i).policy) ∧
    ((System.run {} ops).mac.frozen = true →
      ∀ pid proc, ((System.run {} ops).run later).procs pid = some proc → ∀ id ∈ proc.stack,
        ∃ i name text, ((System.run {} ops).run later).mac.slotOf? id = some i ∧
          (((System.run {} ops).run later).mac.slots i).name = name ∧
          (name, text) ∈ (System.run {} ops).loaded ∧
          parse text = .ok (((System.run {} ops).run later).mac.slots i).policy) := by
  obtain ⟨sound, _⟩ := System.Sound.boot.run ops
  obtain ⟨sound', onward⟩ := sound.run later
  refine ⟨?_, onward.kept, ?_⟩
  · intro pid descendant action refused descends
    obtain ⟨proc, here, negative⟩ := refused
    obtain ⟨shallow, named⟩ := sound.confined pid proc here
    obtain ⟨younger, there, begins⟩ := sound'.descends (onward.procs pid proc here) descends
    refine ⟨younger, there, ((Mac.check_spec _ _ _ _).2).mpr (Or.inr ?_)⟩
    -- The stack is not too deep, so some profile on it refuses; it is still there, and the same.
    rcases (Mac.check_spec _ _ _ _).2.mp negative with deep | ⟨id, member, denies⟩
    · omega
    · obtain ⟨i, slot⟩ := named id member
      exact ⟨id, begins.subset member, onward.denies slot denies⟩
  · intro cold pid proc here id member
    obtain ⟨i, slot⟩ := (sound'.confined pid proc here).2 id member
    obtain ⟨_, used⟩ := Mac.slotOf?_eq_some.mp slot
    -- No slot was taken after the freeze.
    have old := (onward.frozen cold).2 i used
    obtain ⟨_, name, policy⟩ := onward.kept i old
    obtain ⟨text, member', reads⟩ := sound.texts i old
    exact ⟨i, _, text, slot, name, member', policy ▸ reads⟩

/-- A program under a profile that allows it to write only. -/
example :
    (System.run {} [.exec none (some (ascii "APP.ELF"))
      (fun _ => some (ascii "allow syscall write\n")) true]).Refuses 1 (.syscall 32) :=
  ⟨{ stack := [1], isUser := true }, by decide +kernel, by decide +kernel⟩

end NovaOs.Confine
