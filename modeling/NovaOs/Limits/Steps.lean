import NovaOs.Limits.System
import Mathlib.Data.Fintype.Basic

/-! What a step can do to processes and CPUs, and which slots the CPUs are at work on. -/

namespace NovaOs.Limits

namespace Phase

variable {phase : Phase}

/-- No child has been made yet. -/
def early : Phase → Bool
  | user | checking .. | allowed _ => true
  | _ => false

/-- The CPU has the lock. -/
def holdsLock : Phase → Bool
  | locked .. | joined .. | counting .. => true
  | _ => false

/-- The child has taken over the limits of its parent. -/
def settled? : Phase → Option Nat
  | joined _ child _ | counting _ child .. | committed _ child => some child
  | _ => none

theorem child?_of_early (early : phase.early = true) : phase.child? = none := by
  cases phase <;> first | rfl | cases early

theorem child?_of_settled {child : Nat} (settled : phase.settled? = some child) :
    phase.child? = some child := by
  cases phase <;> first | exact settled | cases settled

end Phase

namespace System

variable {cpus : Nat} {sys after : System cpus} {slot : Nat} {cpu : Fin cpus} {next : Phase}
  {capacity : Nat}

/-- What an action can do. -/
inductive Change (sys : System cpus) : Action cpus → System cpus → Prop where
  | idle (action : Action cpus) : Change sys action sys
  | boot {slot capacity : Nat} (uid : UInt32) (found : sys.freeSlot? = some (slot, capacity)) :
      Change sys (.boot uid)
        (((sys.claim slot capacity).setUid slot uid).setState slot .published)
  | identify {slot : Nat} (uid : UInt32) (free : sys.free slot = true) :
      Change sys (.identify slot uid) (sys.setUid slot uid)
  | exit {slot : Nat} (free : sys.free slot = true) :
      Change sys (.exit slot) (sys.setState slot .terminated)
  | reap {slot : Nat} (terminated : (sys.table slot).state = .terminated) :
      Change sys (.reap slot) (sys.setState slot .unused)
  | set {caller target : Nat} {pid : Pid} {request : Request} (free : sys.free caller = true)
      (agreed : (sys.rlimitSys caller pid request).2 = some target) :
      Change sys (.set caller pid request)
        (sys.setLimits target ((sys.table target).rl.rlApplySet request))
  -- A CPU begins, goes on with the early check, or gives up.
  | move {action : Action cpus} {cpu : Fin cpus} {next : Phase}
      (before : (sys.phase cpu).holdsLock = false) (early : next.early = true)
      (parent : ∀ q, next.parent? = some q → (sys.phase cpu).parent? = some q ∨
        sys.phase cpu = .user ∧ sys.free q = true) :
      Change sys action (sys.enter cpu next)
  | task {cpu : Fin cpus} {parent child capacity : Nat} (user : sys.phase cpu = .user)
      (free : sys.free parent = true) (found : sys.freeSlot? = some (child, capacity)) :
      Change sys (.task cpu parent)
        ({ (sys.claim child capacity).setUid child 0 with
          past := Function.update sys.past child (sys.past parent) }.enter cpu
            (.committed parent child))
  | claim {cpu : Fin cpus} {parent child capacity : Nat}
      (phase : sys.phase cpu = .allowed parent)
      (found : sys.freeSlot? = some (child, capacity)) :
      Change sys (.go cpu) ((sys.claim child capacity).enter cpu (.allocated parent child))
  | root {cpu : Fin cpus} {parent child : Nat} (phase : sys.phase cpu = .allocated parent child) :
      Change sys (.go cpu) ((sys.setUid child (sys.table parent).uid).enter cpu
        (.rooted parent child ((sys.table parent).rl.rlChildQuotaRoot (sys.table parent).pid)))
  | inherit {cpu : Fin cpus} {parent child : Nat}
      (phase : sys.phase cpu = .rooted parent child 0) :
      Change sys (.go cpu) ((sys.inherit parent child).enter cpu (.committed parent child))
  | lock {cpu : Fin cpus} {parent child : Nat} {rootPid : Pid}
      (phase : sys.phase cpu = .rooted parent child rootPid) (nonzero : rootPid ≠ 0)
      (unlocked : sys.spawnCommitLock = none) :
      Change sys (.go cpu)
        { sys.enter cpu (.locked parent child rootPid) with spawnCommitLock := some cpu }
  | join {cpu : Fin cpus} {parent child : Nat} {rootPid : Pid}
      (phase : sys.phase cpu = .locked parent child rootPid) :
      Change sys (.go cpu) ((sys.inherit parent child).enter cpu (.joined parent child rootPid))
  | lapse {cpu : Fin cpus} {parent child : Nat} {rootPid : Pid}
      (phase : sys.phase cpu = .joined parent child rootPid)
      (gone : sys.processFindLive rootPid = none) :
      Change sys (.go cpu)
        { sys.enter cpu (.committed parent child) with spawnCommitLock := none }
  | find {cpu : Fin cpus} {parent child root : Nat} {rootPid : Pid}
      (phase : sys.phase cpu = .joined parent child rootPid)
      (found : sys.processFindLive rootPid = some root) :
      Change sys (.go cpu) (sys.enter cpu (.counting parent child root rootPid sys.capacity 0 0))
  | count {cpu : Fin cpus} {parent child root : Nat} {rootPid : Pid} {capacity seen members : Nat}
      (phase : sys.phase cpu = .counting parent child root rootPid capacity seen members)
      (more : seen < capacity) :
      Change sys (.go cpu) (sys.enter cpu (.counting parent child root rootPid capacity (seen + 1)
        (members + (sys.member rootPid seen).toNat)))
  | agree {cpu : Fin cpus} {parent child root : Nat} {rootPid : Pid} {capacity seen members : Nat}
      (phase : sys.phase cpu = .counting parent child root rootPid capacity seen members)
      (done : capacity ≤ seen)
      (allowed : (sys.table root).rl.rlSpawnAllowed (.ofNat members - 1) = true) :
      Change sys (.go cpu)
        { sys.enter cpu (.committed parent child) with spawnCommitLock := none }
  | refuse {cpu : Fin cpus} {parent child root : Nat} {rootPid : Pid} {capacity seen members : Nat}
      (phase : sys.phase cpu = .counting parent child root rootPid capacity seen members) :
      Change sys (.go cpu)
        { (sys.setRl child { (sys.table child).rl with quotaRoot := 0 }).enter cpu .user with
          spawnCommitLock := none }
  | publish {cpu : Fin cpus} {parent child : Nat}
      (phase : sys.phase cpu = .committed parent child) :
      Change sys (.go cpu) ((sys.setState child .published).enter cpu .user)

/-- A CPU that makes a child goes on as the table of changes says. -/
theorem change_go (sys : System cpus) (cpu : Fin cpus) :
    sys.Change (.go cpu) (sys.advance cpu) := by
  unfold advance
  split
  · exact .idle _
  · rename_i parent root rootPid capacity seen members phase
    have same : ∀ next : Phase, (∀ q, next.parent? = some q → q = parent) →
        ∀ q, next.parent? = some q → (sys.phase cpu).parent? = some q ∨
          sys.phase cpu = .user ∧ sys.free q = true := by
      intro next only q named
      rw [phase, only q named]
      exact .inl rfl
    have before : (sys.phase cpu).holdsLock = false := by rw [phase]; rfl
    split
    · exact .move before rfl (same _ fun q named => (Option.some.inj named).symm)
    · split
      · exact .move before rfl (same _ fun q named => (Option.some.inj named).symm)
      · exact .move before rfl (same _ fun q named => by cases named)
  · rename_i parent phase
    split
    · exact .move (by rw [phase]; rfl) rfl fun q named => by cases named
    · exact .claim phase (by assumption)
  · exact .root (by assumption)
  · rename_i parent child rootPid phase
    split
    · rename_i zero
      subst zero
      exact .inherit phase
    · rename_i nonzero
      split
      · exact .idle _
      · exact .lock phase nonzero (by assumption)
  · exact .join (by assumption)
  · rename_i parent child rootPid phase
    split
    · exact .lapse phase (by assumption)
    · exact .find phase (by assumption)
  · rename_i parent child root rootPid capacity seen members phase
    split
    · exact .count phase (by assumption)
    · rename_i done
      split
      · exact .agree phase (Nat.le_of_not_lt done) (by assumption)
      · exact .refuse phase
  · exact .publish (by assumption)

/-- The table of changes is complete: each invariant is proved over it. -/
theorem change_step (sys : System cpus) (action : Action cpus) :
    sys.Change action (sys.step action) := by
  cases action with
  | boot uid =>
    simp only [step, start]
    cases found : sys.freeSlot? with
    | none => exact .idle _
    | some place => exact .boot uid found
  | identify slot uid =>
    simp only [step]
    split
    · exact .identify uid (by assumption)
    · exact .idle _
  | exit slot =>
    simp only [step]
    split
    · exact .exit (by assumption)
    · exact .idle _
  | reap slot =>
    simp only [step]
    split
    · exact .reap (by assumption)
    · exact .idle _
  | set caller pid request =>
    simp only [step]
    split
    · rename_i free
      split
      · exact .idle _
      · exact .set free (by assumption)
    · exact .idle _
  | spawn cpu parent =>
    simp only [step]
    split
    · rename_i ready
      obtain ⟨user, free⟩ := ready
      have begins : ∀ next : Phase, (∀ q, next.parent? = some q → q = parent) →
          ∀ q, next.parent? = some q → (sys.phase cpu).parent? = some q ∨
            sys.phase cpu = .user ∧ sys.free q = true := by
        intro next only q named
        rw [only q named]
        exact .inr ⟨user, free⟩
      have before : (sys.phase cpu).holdsLock = false := by rw [user]; rfl
      unfold rlimitMaySpawn
      dsimp only
      split
      · exact .move before rfl (begins _ fun q named => (Option.some.inj named).symm)
      · split
        · exact .move before rfl (begins _ fun q named => (Option.some.inj named).symm)
        · exact .move before rfl (begins _ fun q named => (Option.some.inj named).symm)
    · exact .idle _
  | task cpu parent =>
    simp only [step, task]
    split
    · rename_i ready
      split
      · exact .idle _
      · exact .task ready.1 ready.2 (by assumption)
    · exact .idle _
  | go cpu => exact sys.change_go cpu
  | fail cpu =>
    simp only [step, giveUp]
    split
    · rename_i phase
      exact .move (by rw [phase]; rfl) rfl fun q named => by cases named
    · rename_i phase
      exact .move (by rw [phase]; rfl) rfl fun q named => by cases named
    · rename_i phase
      exact .move (by rw [phase]; rfl) rfl fun q named => by cases named
    · exact .idle _

/-- Each CPU works for a process of its own, on a slot of its own that nobody else touches. -/
structure Wf (sys : System cpus) : Prop where
  parents : ∀ cpu q, (sys.phase cpu).parent? = some q → (sys.table q).state = .published
  alone : ∀ c d q, (sys.phase c).parent? = some q → (sys.phase d).parent? = some q → c = d
  children : ∀ cpu q, (sys.phase cpu).child? = some q → (sys.table q).state = .allocating
  own : ∀ c d q, (sys.phase c).child? = some q → (sys.phase d).child? = some q → c = d
  beyond : ∀ i, sys.capacity ≤ i → (sys.table i).state = .unused
  bounded : sys.capacity ≤ processTableChunkSize * processTableMaxChunks

theorem Wf.boot : ({} : System cpus).Wf where
  parents _ _ absurd := by cases absurd
  alone _ _ _ absurd := by cases absurd
  children _ _ absurd := by cases absurd
  own _ _ _ absurd := by cases absurd
  beyond _ _ := rfl
  bounded := show processTableChunkSize ≤ processTableChunkSize * processTableMaxChunks by decide

/-- Only states and phases matter. -/
theorem Wf.congr (wf : sys.Wf) (phase : after.phase = sys.phase)
    (capacity : after.capacity = sys.capacity)
    (state : ∀ i, (after.table i).state = (sys.table i).state) : after.Wf where
  parents cpu q named := by
    rw [state]
    exact wf.parents cpu q (phase ▸ named)
  alone c d q one other := wf.alone c d q (phase ▸ one) (phase ▸ other)
  children cpu q named := by
    rw [state]
    exact wf.children cpu q (phase ▸ named)
  own c d q one other := wf.own c d q (phase ▸ one) (phase ▸ other)
  beyond i outside := by
    rw [state]
    exact wf.beyond i (capacity ▸ outside)
  bounded := by
    rw [capacity]
    exact wf.bounded

theorem phase_enter (sys : System cpus) (cpu c : Fin cpus) (next : Phase) :
    (sys.enter cpu next).phase c = if c = cpu then next else sys.phase c :=
  Function.update_apply ..

/-- A CPU goes on to another phase, with a parent and a child that no other CPU has. -/
theorem Wf.enter (wf : sys.Wf)
    (parent : ∀ q, next.parent? = some q → (sys.table q).state = .published ∧
      ∀ d, d ≠ cpu → (sys.phase d).parent? ≠ some q)
    (child : ∀ q, next.child? = some q → (sys.table q).state = .allocating ∧
      ∀ d, d ≠ cpu → (sys.phase d).child? ≠ some q) : (sys.enter cpu next).Wf := by
  have phase := phase_enter sys cpu
  refine ⟨fun c q named => ?_, fun c d q one other => ?_, fun c q named => ?_,
    fun c d q one other => ?_, wf.beyond, wf.bounded⟩
  · rw [phase] at named
    split at named
    · exact (parent q named).1
    · exact wf.parents c q named
  · rw [phase] at one other
    split at one <;> split at other
    · rename_i same also
      rw [same, also]
    · exact absurd other ((parent q one).2 d (by assumption))
    · exact absurd one ((parent q other).2 c (by assumption))
    · exact wf.alone c d q one other
  · rw [phase] at named
    split at named
    · exact (child q named).1
    · exact wf.children c q named
  · rw [phase] at one other
    split at one <;> split at other
    · rename_i same also
      rw [same, also]
    · exact absurd other ((child q one).2 d (by assumption))
    · exact absurd one ((child q other).2 c (by assumption))
    · exact wf.own c d q one other

/-- A CPU goes on with what it has. -/
theorem Wf.stay {before : Phase} (wf : sys.Wf) (phase : sys.phase cpu = before)
    (parent : next.parent? = before.parent?) (child : next.child? = before.child?) :
    (sys.enter cpu next).Wf := by
  subst phase
  refine wf.enter (fun q named => ⟨wf.parents cpu q (parent ▸ named), fun d other again => ?_⟩)
    (fun q named => ⟨wf.children cpu q (child ▸ named), fun d other again => ?_⟩)
  · exact other (wf.alone d cpu q again (parent ▸ named))
  · exact other (wf.own d cpu q again (child ▸ named))

/-- A slot that no CPU works on goes to another state. -/
theorem Wf.setState {state : ProcessState} (wf : sys.Wf)
    (parent : ∀ cpu, (sys.phase cpu).parent? = some slot → state = .published)
    (child : ∀ cpu, (sys.phase cpu).child? ≠ some slot)
    (inside : sys.capacity ≤ slot → state = .unused) : (sys.setState slot state).Wf := by
  have states : ∀ q, ((sys.setState slot state).table q).state
      = if q = slot then state else (sys.table q).state := by
    intro q
    simp only [System.setState, Function.update_apply, apply_ite Process.state]
  refine ⟨fun cpu q named => ?_, wf.alone, fun cpu q named => ?_, wf.own, fun i outside => ?_,
    wf.bounded⟩
  · rw [states]
    split
    · rename_i same
      exact parent cpu (same ▸ named)
    · exact wf.parents cpu q named
  · rw [states, if_neg fun same : q = slot => child cpu (same ▸ named)]
    exact wf.children cpu q named
  · rw [states]
    split
    · rename_i same
      exact inside (same ▸ outside)
    · exact wf.beyond i outside

/-- A free slot is unused, also where the table grows. -/
theorem freeSlot?_spec (wf : sys.Wf) (found : sys.freeSlot? = some (slot, capacity)) :
    (sys.table slot).state = .unused ∧ slot < capacity ∧ sys.capacity ≤ capacity ∧
      capacity ≤ processTableChunkSize * processTableMaxChunks := by
  have bounded := wf.bounded
  unfold freeSlot? at found
  split at found
  · rename_i i first
    cases found
    have unused := List.find?_some first
    have inside := List.mem_range.mp (List.mem_of_find?_eq_some first)
    exact ⟨by simpa using unused, inside, Nat.le_refl _, bounded⟩
  split at found
  · rename_i may
    cases found
    have positive : 0 < processTableChunkSize := by decide
    exact ⟨wf.beyond _ (Nat.le_refl _), by omega, by omega, may⟩
  · cases found

/-- The slot that is claimed is nobody's child. -/
theorem Wf.claim (wf : sys.Wf) (found : sys.freeSlot? = some (slot, capacity)) :
    (sys.claim slot capacity).Wf ∧ ∀ cpu, (sys.phase cpu).child? ≠ some slot := by
  obtain ⟨unused, inside, grown, bounded⟩ := freeSlot?_spec wf found
  have states : ∀ q, ((sys.claim slot capacity).table q).state
      = if q = slot then .allocating else (sys.table q).state := by
    intro q
    simp only [System.claim, Function.update_apply, apply_ite Process.state]
  -- Nobody is at work on an unused slot.
  have apart : ∀ cpu, (sys.phase cpu).parent? ≠ some slot ∧ (sys.phase cpu).child? ≠ some slot := by
    intro cpu
    refine ⟨fun named => ?_, fun named => ?_⟩
    · simp [wf.parents cpu slot named] at unused
    · simp [wf.children cpu slot named] at unused
  refine ⟨⟨fun cpu q named => ?_, wf.alone, fun cpu q named => ?_, wf.own, fun i outside => ?_,
    bounded⟩, fun cpu => (apart cpu).2⟩
  · rw [states, if_neg fun same : q = slot => (apart cpu).1 (same ▸ named)]
    exact wf.parents cpu q named
  · rw [states, if_neg fun same : q = slot => (apart cpu).2 (same ▸ named)]
    exact wf.children cpu q named
  · have outside : capacity ≤ i := outside
    rw [states, if_neg (by omega)]
    exact wf.beyond i (by omega)

theorem free_spec (free : sys.free slot = true) :
    (sys.table slot).state = .published ∧ ∀ cpu, (sys.phase cpu).parent? ≠ some slot := by
  simp only [System.free, busy, Bool.and_eq_true, decide_eq_true_eq, Bool.not_eq_true',
    List.any_eq_false, List.mem_finRange, true_implies, beq_iff_eq] at free
  exact free

section

variable (sys) (slot : Nat)

@[simp] theorem state_setRl (rl : RlimitState) (i : Nat) :
    ((sys.setRl slot rl).table i).state = (sys.table i).state := by
  simp only [setRl, Function.update_apply]
  grind

@[simp] theorem state_setUid (uid : UInt32) (i : Nat) :
    ((sys.setUid slot uid).table i).state = (sys.table i).state := by
  simp only [setUid, Function.update_apply]
  grind

@[simp] theorem rl_setState {state : ProcessState} {i : Nat} :
    ((sys.setState slot state).table i).rl = (sys.table i).rl := by
  simp only [setState, Function.update_apply]
  grind

@[simp] theorem pid_setState (state : ProcessState) (i : Nat) :
    ((sys.setState slot state).table i).pid = (sys.table i).pid := by
  simp only [setState, Function.update_apply]
  grind

@[simp] theorem rl_setUid {uid : UInt32} {i : Nat} :
    ((sys.setUid slot uid).table i).rl = (sys.table i).rl := by
  simp only [setUid, Function.update_apply]
  grind

@[simp] theorem pid_setRl (rl : RlimitState) (i : Nat) :
    ((sys.setRl slot rl).table i).pid = (sys.table i).pid := by
  simp only [setRl, Function.update_apply]
  grind

end

/-- Each change keeps the table and the phases in step. -/
theorem Wf.change {action : Action cpus} (wf : sys.Wf) (change : sys.Change action after) :
    after.Wf := by
  cases change with
  | idle => exact wf
  | @boot slot capacity uid found =>
    obtain ⟨claimed, apart⟩ := wf.claim found
    have inside := (freeSlot?_spec wf found).2.1
    have named : ((sys.claim slot capacity).setUid slot uid).Wf :=
      claimed.congr rfl rfl (state_setUid _ slot uid)
    exact named.setState (fun _ _ => rfl) apart fun outside =>
      absurd outside (Nat.not_le.mpr inside)
  | @identify slot uid free => exact wf.congr rfl rfl (state_setUid sys slot uid)
  | @exit slot free =>
    obtain ⟨published, idle⟩ := free_spec free
    refine wf.setState (fun cpu named => absurd named (idle cpu)) (fun cpu named => ?_)
      fun outside => ?_
    · simp [wf.children cpu slot named] at published
    · simp [wf.beyond slot outside] at published
  | @reap slot terminated =>
    refine wf.setState (fun cpu named => ?_) (fun cpu named => ?_) fun _ => rfl
    · simp [wf.parents cpu slot named] at terminated
    · simp [wf.children cpu slot named] at terminated
  | @set caller target pid request free agreed =>
    exact wf.congr rfl rfl (state_setRl sys target _)
  | @move _ cpu next before early parent =>
    refine wf.enter (fun q named => ?_) fun q named => ?_
    · rcases parent q named with same | ⟨user, free⟩
      · exact ⟨wf.parents cpu q same, fun d other again => other (wf.alone d cpu q again same)⟩
      · obtain ⟨published, idle⟩ := free_spec free
        exact ⟨published, fun d _ => idle d⟩
    · rw [Phase.child?_of_early early] at named
      cases named
  | @task cpu parent child capacity user free found =>
    obtain ⟨claimed, apart⟩ := wf.claim found
    obtain ⟨published, idle⟩ := free_spec free
    have other : parent ≠ child := by
      rintro rfl
      simp [(freeSlot?_spec wf found).1] at published
    have named : ((sys.claim child capacity).setUid child 0).Wf :=
      claimed.congr rfl rfl (state_setUid _ child 0)
    refine (named.enter (fun q is => ?_) fun q is => ?_).congr rfl rfl fun _ => rfl
    · obtain rfl := Option.some.inj is
      exact ⟨by simpa [System.claim, other] using published, fun d _ => idle d⟩
    · obtain rfl := Option.some.inj is
      exact ⟨by simp [System.claim], fun d _ => apart d⟩
  | @claim cpu parent child capacity phase found =>
    obtain ⟨claimed, apart⟩ := wf.claim found
    refine claimed.enter (fun q named => ?_) fun q named => ?_
    · have same : (sys.phase cpu).parent? = some q := by rw [phase]; exact named
      exact ⟨claimed.parents cpu q same, fun d other again => other (wf.alone d cpu q again same)⟩
    · obtain rfl := Option.some.inj named
      exact ⟨by simp [System.claim], fun d _ => apart d⟩
  | @root cpu parent child phase =>
    exact Wf.stay (wf.congr rfl rfl (state_setUid sys child _)) phase rfl rfl
  | @inherit cpu parent child phase | @join cpu parent child rootPid phase =>
    exact Wf.stay (wf.congr rfl rfl (state_setRl sys child _)) phase rfl rfl
  | @lock cpu parent child rootPid phase nonzero unlocked =>
    have stays : (sys.enter cpu (.locked parent child rootPid)).Wf := wf.stay phase rfl rfl
    exact stays.congr rfl rfl fun _ => rfl
  | @lapse cpu parent child rootPid phase gone
  | @agree cpu parent child root rootPid capacity seen members phase done allowed =>
    have stays : (sys.enter cpu (.committed parent child)).Wf := wf.stay phase rfl rfl
    exact stays.congr rfl rfl fun _ => rfl
  | @find cpu parent child root rootPid phase found
  | @count cpu parent child root rootPid capacity seen members phase more =>
    exact Wf.stay wf phase rfl rfl
  | @refuse cpu parent child root rootPid capacity seen members phase =>
    have dropped : (sys.enter cpu .user).Wf :=
      wf.enter (fun q named => by cases named) fun q named => by cases named
    exact dropped.congr rfl rfl (state_setRl sys child _)
  | @publish cpu parent child phase => ?_
  -- The child leaves the CPU that made it in the same step.
  have mine : (sys.phase cpu).child? = some child := by rw [phase]; rfl
  have dropped : (sys.enter cpu .user).Wf :=
    wf.enter (fun q named => by cases named) fun q named => by cases named
  have published : ((sys.enter cpu .user).setState child .published).Wf := by
    refine dropped.setState (fun _ _ => rfl) (fun d named => ?_) fun outside => ?_
    · by_cases same : d = cpu
      · simp [System.enter, same, Phase.child?] at named
      · rw [phase_enter, if_neg same] at named
        exact same (wf.own d cpu child named mine)
    · have unused := wf.beyond child outside
      simp [wf.children cpu child mine] at unused
  exact published.congr rfl rfl fun _ => rfl

theorem Wf.run (wf : sys.Wf) (actions : List (Action cpus)) : (sys.run actions).Wf := by
  induction actions generalizing sys with
  | nil => exact wf
  | cons action rest ih => exact ih (wf.change (sys.change_step action))

end System

end NovaOs.Limits
