import NovaOs.Lib.Table
import NovaOs.Limits.Steps
import Mathlib.Data.Finset.Card
import Mathlib.Data.Finset.Range
import Mathlib.Algebra.Order.Ring.Int

/-! A quota of processes is kept by CPUs that make children at the same time. -/

namespace NovaOs.Limits

open Function Finset

namespace Phase

variable {phase : Phase}

/-- A child that has joined a quota which is still being counted. -/
def deciding? : Phase → Option Nat
  | joined _ child _ | counting _ child .. => some child
  | _ => none

/-- A process whose quota has been looked up for a child that has not joined it. -/
def committing? : Phase → Option Nat
  | rooted parent .. | locked parent .. => some parent
  | _ => none

theorem child?_of_deciding {child : Nat} (deciding : phase.deciding? = some child) :
    phase.child? = some child := by
  cases phase <;> first | exact deciding | cases deciding

theorem deciding?_of_unlocked (unlocked : phase.holdsLock = false) : phase.deciding? = none := by
  cases phase <;> first | rfl | cases unlocked

/-- Nothing is asked of a CPU that has no child to decide about. -/
theorem undecided {now : Phase} {goal : Nat → Prop} (is : now = phase)
    (none : phase.deciding? = none) :
    ∀ child, now.deciding? = some child → goal child := by
  rw [is, none]
  nofun

theorem parent?_of_committing {parent : Nat} (committing : phase.committing? = some parent) :
    phase.parent? = some parent := by
  cases phase <;> first | exact committing | cases committing

end Phase

namespace System

variable {cpus : Nat} {sys after : System cpus} {rootPid : Pid} {i slot : Nat} {cpu : Fin cpus}
  {capacity : Nat} {rl : RlimitState} {pid : Pid}

/-- A slot counts against a quota and is not a child about which the kernel is about to decide. -/
def Admitted (sys : System cpus) (rootPid : Pid) (slot : Nat) : Prop :=
  sys.member rootPid slot = true ∧ ∀ cpu, (sys.phase cpu).deciding? ≠ some slot

instance decidableAdmitted (sys : System cpus) (rootPid : Pid) :
    DecidablePred (sys.Admitted rootPid) :=
  fun _ => inferInstanceAs (Decidable (_ ∧ _))

def quotaCount (sys : System cpus) (rootPid : Pid) : Nat :=
  ((Finset.range sys.capacity).filter (sys.Admitted rootPid)).card

/-- A quota is not set below the number of those that count against it. -/
def NotLowered (sys : System cpus) : Action cpus → Prop
  | .set caller pid request =>
    sys.free caller = true → ∀ target ∈ (sys.rlimitSys caller pid request).2,
      request.asks rlMaskProcs = true → request.procs ≠ 0 →
        sys.quotaCount (sys.table target).pid ≤ request.procs.toNat
  | _ => True

/-- Nobody sets the quota of a process in whose name it has just been looked up. -/
def Undisturbed (sys : System cpus) : Action cpus → Prop
  | .set caller pid request =>
    sys.free caller = true → ∀ target ∈ (sys.rlimitSys caller pid request).2,
      request.asks rlMaskProcs = true → ∀ cpu, (sys.phase cpu).committing? ≠ some target
  | _ => True

instance decidableNotLowered (sys : System cpus) (action : Action cpus) :
    Decidable (sys.NotLowered action) :=
  match action with
  | .set .. => inferInstanceAs (Decidable (_ = true → ∀ _ ∈ _, _ → _ → _ ≤ _))
  | .boot _ | .identify .. | .exit _ | .reap _ | .spawn .. | .task .. | .go _ | .fail _ =>
    isTrue trivial

instance decidableUndisturbed (sys : System cpus) (action : Action cpus) :
    Decidable (sys.Undisturbed action) :=
  match action with
  | .set .. => inferInstanceAs (Decidable (_ = true → ∀ _ ∈ _, _ → ∀ _, _ ≠ _))
  | .boot _ | .identify .. | .exit _ | .reap _ | .spawn .. | .task .. | .go _ | .fail _ =>
    isTrue trivial

/-- Numbers of processes are given out once, and a quota bears the number of a process. -/
structure Numbered (sys : System cpus) : Prop where
  positive : 1 ≤ sys.nextPid
  live : ∀ i, (sys.table i).isLive = true → 1 ≤ (sys.table i).pid ∧ (sys.table i).pid < sys.nextPid
  unique : ∀ i j, (sys.table i).isLive = true → (sys.table j).isLive = true →
    (sys.table i).pid = (sys.table j).pid → i = j
  quotas : ∀ i, (sys.table i).rl.quotaRoot < sys.nextPid

/-- The quota a child of a process counts against. -/
def childQuota (sys : System cpus) (parent : Nat) : Pid :=
  (sys.table parent).rl.rlChildQuotaRoot (sys.table parent).pid

/-- What a CPU has found out about the quota of a child. -/
def Knows (sys : System cpus) (cpu : Fin cpus) : Phase → Prop
  | .allocated _ child => (sys.table child).rl.quotaRoot = 0
  | .rooted parent child rootPid =>
    (sys.table child).rl.quotaRoot = 0 ∧ rootPid = sys.childQuota parent
  | .locked parent child rootPid =>
    sys.spawnCommitLock = some cpu ∧ rootPid ≠ 0 ∧
      (sys.table child).rl.quotaRoot = 0 ∧ rootPid = sys.childQuota parent
  | .joined _ child rootPid =>
    sys.spawnCommitLock = some cpu ∧ rootPid ≠ 0 ∧ (sys.table child).rl.quotaRoot = rootPid
  | .counting _ child root rootPid capacity seen members =>
    sys.spawnCommitLock = some cpu ∧ rootPid ≠ 0 ∧ (sys.table child).rl.quotaRoot = rootPid ∧
      (∀ i, (sys.table i).isLive = true → (sys.table i).pid = rootPid → i = root) ∧
      (∀ i, sys.member rootPid i = true → i < capacity) ∧
      ((Finset.range seen).filter fun i => sys.member rootPid i = true).card ≤ members ∧
      members ≤ seen ∧ seen ≤ capacity ∧ capacity ≤ sys.capacity
  | _ => True

/-- The quotas are kept, and every CPU is right about what it has found out. -/
structure Kept (sys : System cpus) : Prop where
  numbered : sys.Numbered
  knows : ∀ cpu, sys.Knows cpu (sys.phase cpu)
  bound : ∀ root, (sys.table root).isLive = true → (sys.table root).rl.maxProcs ≠ 0 →
    sys.quotaCount (sys.table root).pid ≤ (sys.table root).rl.maxProcs.toNat

theorem Kept.known {phase : Phase} (kept : sys.Kept) (now : sys.phase cpu = phase) :
    sys.Knows cpu phase :=
  now ▸ kept.knows cpu

/-- What a CPU has found out stays so as long as its lock, its child and the quota of its parent do,
and nobody joins the quota it counts. -/
theorem Knows.frame {phase : Phase} (knows : sys.Knows cpu phase) (numbered : sys.Numbered)
    (lock : sys.spawnCommitLock = some cpu → after.spawnCommitLock = some cpu)
    (capacity : sys.capacity ≤ after.capacity)
    (child : ∀ q, phase.child? = some q →
      (after.table q).rl.quotaRoot = (sys.table q).rl.quotaRoot)
    (parent : ∀ q, phase.committing? = some q → after.childQuota q = sys.childQuota q)
    (members : sys.spawnCommitLock = some cpu → ∀ rootPid, rootPid ≠ 0 → ∀ i,
      after.member rootPid i = true → sys.member rootPid i = true)
    (live : ∀ i, (after.table i).isLive = true → (after.table i).pid < sys.nextPid →
      (sys.table i).isLive = true ∧ (after.table i).pid = (sys.table i).pid) :
    after.Knows cpu phase := by
  cases phase with
  | user | checking | allowed | committed => trivial
  | allocated p q =>
    exact (child q rfl).trans knows
  | rooted p q rootPid =>
    exact ⟨(child q rfl).trans knows.1, knows.2.trans (parent p rfl).symm⟩
  | locked p q rootPid =>
    obtain ⟨held, nonzero, fresh, looked⟩ := knows
    exact ⟨lock held, nonzero, (child q rfl).trans fresh, looked.trans (parent p rfl).symm⟩
  | joined p q rootPid =>
    obtain ⟨held, nonzero, joined⟩ := knows
    exact ⟨lock held, nonzero, (child q rfl).trans joined⟩
  | counting p q root rootPid slots seen found => ?_
  obtain ⟨held, nonzero, joined, only, inside, counted, few, early, grown⟩ := knows
  have fewer := members held rootPid nonzero
  refine ⟨lock held, nonzero, (child q rfl).trans joined, fun i alive named => ?_,
    fun i member => inside i (fewer i member), le_trans ?_ counted, few, early,
    grown.trans capacity⟩
  · -- A number that a quota bears is not given out again.
    have old := numbered.quotas q
    obtain ⟨before, same⟩ := live i alive (by rw [named, ← joined]; exact old)
    exact only i before (same ▸ named)
  · exact card_le_card (monotone_filter_right _ fun i _ => fewer i)

theorem member_iff : sys.member rootPid i = true ↔
    (sys.table i).isLive = true ∧ (sys.table i).rl.quotaRoot = rootPid := by
  rw [member, Bool.and_eq_true, decide_eq_true_iff]

theorem isLive_of_state {p : Process} (state : p.state = .published ∨ p.state = .allocating) :
    p.isLive = true := by
  rcases state with published | allocating
  · simp [Process.isLive, published]
  · simp [Process.isLive, allocating]

theorem inside_of_live (wf : sys.Wf) (live : (sys.table i).isLive = true) : i < sys.capacity := by
  by_contra outside
  simp [Process.isLive, wf.beyond i (Nat.le_of_not_lt outside)] at live

theorem quotaCount_le (wf : sys.Wf)
    (fewer : ∀ i, after.Admitted rootPid i → sys.Admitted rootPid i) :
    after.quotaCount rootPid ≤ sys.quotaCount rootPid := by
  refine card_le_card fun i counted => ?_
  have admitted := fewer i (mem_filter.mp counted).2
  have inside := inside_of_live wf (member_iff.mp admitted.1).1
  exact mem_filter.mpr ⟨mem_range.mpr inside, admitted⟩

/-- No number is given out, and perhaps processes end. -/
theorem Numbered.shrink (numbered : sys.Numbered) (next : after.nextPid = sys.nextPid)
    (live : ∀ i, (after.table i).isLive = true → (sys.table i).isLive = true)
    (pid : ∀ i, (after.table i).pid = (sys.table i).pid)
    (quotas : ∀ i, (after.table i).rl.quotaRoot < sys.nextPid) : after.Numbered where
  positive := next ▸ numbered.positive
  live i alive := by
    rw [pid, next]
    exact numbered.live i (live i alive)
  unique i j one other same := by
    rw [pid, pid] at same
    exact numbered.unique i j (live i one) (live j other) same
  quotas i := next ▸ quotas i

theorem Numbered.pid_ne_zero (numbered : sys.Numbered) (live : (sys.table i).isLive = true) :
    (sys.table i).pid ≠ 0 :=
  (lt_of_lt_of_le Int.zero_lt_one (numbered.live i live).1).ne'

theorem Numbered.childQuota_lt (numbered : sys.Numbered) {parent : Nat}
    (published : (sys.table parent).state = .published) : sys.childQuota parent < sys.nextPid := by
  unfold childQuota RlimitState.rlChildQuotaRoot
  split
  · exact (numbered.live parent (isLive_of_state (.inl published))).2
  · exact numbered.quotas parent

/-- Two processes that count and are counted in the same way. -/
structure Alike (p q : Process) : Prop where
  live : q.isLive = p.isLive
  pid : q.pid = p.pid
  quotaRoot : q.rl.quotaRoot = p.rl.quotaRoot
  maxProcs : q.rl.maxProcs = p.rl.maxProcs

theorem Alike.refl (p : Process) : Alike p p := ⟨rfl, rfl, rfl, rfl⟩

section

variable (alike : ∀ i, Alike (sys.table i) (after.table i))
include alike

theorem Alike.member (rootPid : Pid) (i : Nat) : after.member rootPid i = sys.member rootPid i := by
  rw [System.member, System.member, (alike i).live, (alike i).quotaRoot]

theorem Alike.childQuota (i : Nat) : after.childQuota i = sys.childQuota i := by
  rw [System.childQuota, System.childQuota, RlimitState.rlChildQuotaRoot,
    RlimitState.rlChildQuotaRoot, (alike i).maxProcs, (alike i).pid, (alike i).quotaRoot]

theorem Alike.numbered (numbered : sys.Numbered) (next : after.nextPid = sys.nextPid) :
    after.Numbered :=
  numbered.shrink next (fun i live => (alike i).live ▸ live) (fun i => (alike i).pid)
    fun i => (alike i).quotaRoot ▸ numbered.quotas i

end

/-- A CPU goes on, and takes the lock from no other. -/
structure Goes (sys after : System cpus) (cpu : Fin cpus) (next : Phase) : Prop where
  nextPid : after.nextPid = sys.nextPid := by rfl
  capacity : after.capacity = sys.capacity := by rfl
  phase : after.phase = update sys.phase cpu next
  lock : ∀ d, d ≠ cpu → sys.spawnCommitLock = some d → after.spawnCommitLock = some d := by
    exact fun _ _ held => held

/-- A CPU goes on, and the processes stay as they are. A child is only let into a quota with a place
to spare. -/
theorem Kept.go (kept : sys.Kept) (wf : sys.Wf) (cpu : Fin cpus) (next : Phase)
    (alike : ∀ i, Alike (sys.table i) (after.table i)) (goes : sys.Goes after cpu next)
    (knows : after.Knows cpu next)
    (decided : ∀ child, (sys.phase cpu).deciding? = some child →
      next.deciding? = some child ∨ ∀ root, (sys.table root).isLive = true →
        (sys.table root).rl.maxProcs ≠ 0 → (sys.table root).pid = (sys.table child).rl.quotaRoot →
        after.quotaCount (sys.table root).pid ≤ (sys.table root).rl.maxProcs.toNat) :
    after.Kept := by
  obtain ⟨nextPid, capacity, phase, lock⟩ := goes
  refine ⟨Alike.numbered alike kept.numbered nextPid, fun d => ?_, fun root live limited => ?_⟩
  · by_cases same : d = cpu
    · subst same
      rw [phase, update_self]
      exact knows
    rw [phase, update_of_ne same]
    exact (kept.knows d).frame kept.numbered (lock d same) capacity.ge
      (fun q _ => (alike q).quotaRoot) (fun q _ => Alike.childQuota alike q)
      (fun _ rootPid _ i member => Alike.member alike rootPid i ▸ member)
      fun i live _ => ⟨(alike i).live ▸ live, (alike i).pid⟩
  · rw [(alike root).live] at live
    rw [(alike root).maxProcs] at limited ⊢
    rw [(alike root).pid]
    by_cases let_in : ∃ child, (sys.phase cpu).deciding? = some child ∧
        next.deciding? ≠ some child ∧ (sys.table root).pid = (sys.table child).rl.quotaRoot
    · obtain ⟨child, was, is, named⟩ := let_in
      rcases decided child was with still | place
      · exact absurd still is
      · exact place root live limited named
    -- Nobody joins this quota, so all it counts now it counted before.
    refine le_trans (quotaCount_le wf fun i admitted => ?_) (kept.bound root live limited)
    have member : sys.member (sys.table root).pid i = true :=
      Alike.member alike _ i ▸ admitted.1
    refine ⟨member, fun d deciding => ?_⟩
    have now := admitted.2 d
    rw [phase] at now
    by_cases same : d = cpu
    · subst same
      rw [update_self] at now
      exact let_in ⟨i, deciding, now, (member_iff.mp member).2.symm⟩
    · rw [update_of_ne same] at now
      exact now deciding

/-- No CPU goes on. -/
structure Rests (sys after : System cpus) : Prop where
  nextPid : after.nextPid = sys.nextPid := by rfl
  capacity : after.capacity = sys.capacity := by rfl
  phase : after.phase = sys.phase := by rfl
  lock : after.spawnCommitLock = sys.spawnCommitLock := by rfl

/-- No CPU goes on; perhaps processes end, or have other limits. -/
theorem Kept.quiet (kept : sys.Kept) (wf : sys.Wf) (rests : sys.Rests after)
    (live : ∀ i, (after.table i).isLive = true → (sys.table i).isLive = true)
    (pid : ∀ i, (after.table i).pid = (sys.table i).pid)
    (quotaRoot : ∀ i, (after.table i).rl.quotaRoot = (sys.table i).rl.quotaRoot)
    (parent : ∀ cpu q, (sys.phase cpu).committing? = some q →
      (after.table q).rl.maxProcs = (sys.table q).rl.maxProcs)
    (limit : ∀ root, (after.table root).rl.maxProcs = (sys.table root).rl.maxProcs ∨
      ((after.table root).rl.maxProcs ≠ 0 →
        sys.quotaCount (sys.table root).pid ≤ (after.table root).rl.maxProcs.toNat)) :
    after.Kept := by
  obtain ⟨nextPid, capacity, phase, lock⟩ := rests
  have fewer : ∀ rootPid i, after.member rootPid i = true → sys.member rootPid i = true := by
    intro rootPid i member
    rw [member_iff] at member ⊢
    exact ⟨live i member.1, quotaRoot i ▸ member.2⟩
  refine ⟨kept.numbered.shrink nextPid live pid fun i => quotaRoot i ▸ kept.numbered.quotas i,
    fun cpu => ?_, fun root alive limited => ?_⟩
  · rw [phase]
    refine (kept.knows cpu).frame kept.numbered (fun held => lock.trans held) capacity.ge
      (fun q _ => quotaRoot q) (fun q committing => ?_) (fun _ rootPid _ => fewer rootPid)
      fun i alive _ => ⟨live i alive, pid i⟩
    rw [System.childQuota, System.childQuota, RlimitState.rlChildQuotaRoot,
      RlimitState.rlChildQuotaRoot, parent cpu q committing, pid, quotaRoot]
  · have less : after.quotaCount (after.table root).pid ≤ sys.quotaCount (sys.table root).pid := by
      rw [pid]
      exact quotaCount_le wf fun i admitted => ⟨fewer _ i admitted.1, phase ▸ admitted.2⟩
    rcases limit root with same | enough
    · rw [same] at limited ⊢
      exact less.trans (kept.bound root (live root alive) limited)
    · exact less.trans (enough limited)

/-- A slot that is claimed is in no quota yet. -/
theorem Kept.claim (kept : sys.Kept) (wf : sys.Wf) (found : sys.freeSlot? = some (slot, capacity)) :
    (sys.claim slot capacity).Kept := by
  obtain ⟨unused, -, grown, -⟩ := freeSlot?_spec wf found
  have positive := kept.numbered.positive
  have new : (sys.claim slot capacity).table slot
      = { sys.table slot with pid := sys.nextPid, state := .allocating, rl := rlReset } := by
    simp [System.claim]
  have others : ∀ i, i ≠ slot → (sys.claim slot capacity).table i = sys.table i := by
    intro i other
    simp [System.claim, other]
  -- The new process counts against no quota, and nobody counts against its own.
  have fewer : ∀ rootPid, rootPid ≠ 0 → ∀ i, (sys.claim slot capacity).member rootPid i = true →
      sys.member rootPid i = true := by
    intro rootPid nonzero i member
    rw [member_iff] at member ⊢
    by_cases same : i = slot
    · subst same
      rw [new] at member
      exact absurd member.2.symm nonzero
    · rwa [others i same] at member
  have up : sys.nextPid < sys.nextPid + 1 := Int.lt_succ _
  refine ⟨⟨positive.trans up.le, ?_, ?_, ?_⟩, fun cpu => ?_, fun root live limited => ?_⟩
  · exact (forall_update_iff sys.table fun _ p => p.isLive = true →
        1 ≤ p.pid ∧ p.pid < sys.nextPid + 1).mpr
      ⟨fun _ => ⟨positive, up⟩, fun i _ live => (kept.numbered.live i live).imp_right up.trans'⟩
  · exact Table.unique_update (fun p : Process => p.isLive = true) Process.pid kept.numbered.unique
      fun j _ live => (kept.numbered.live j live).2.ne
  · exact (forall_update_iff sys.table fun _ p => p.rl.quotaRoot < sys.nextPid + 1).mpr
      ⟨lt_of_lt_of_le Int.zero_lt_one (positive.trans up.le),
        fun i _ => (kept.numbered.quotas i).trans up⟩
  · refine (kept.knows cpu).frame kept.numbered (fun held => held) grown (fun q made => ?_)
      (fun q committing => ?_) (fun _ => fewer) fun i live old => ?_
    · rw [others]
      rintro rfl
      simp [wf.children cpu q made] at unused
    · rw [System.childQuota, others, ← System.childQuota]
      rintro rfl
      simp [wf.parents cpu q (Phase.parent?_of_committing committing)] at unused
    · by_cases same : i = slot
      · subst same
        rw [new] at old
        exact absurd old (lt_irrefl _)
      · rw [others i same] at live ⊢
        exact ⟨live, rfl⟩
  · by_cases same : root = slot
    · subst same
      rw [new] at limited
      exact absurd rfl limited
    · rw [others root same] at live limited ⊢
      have number := kept.numbered.pid_ne_zero live
      refine le_trans (quotaCount_le wf fun i admitted => ?_) (kept.bound root live limited)
      exact ⟨fewer _ number i admitted.1, admitted.2⟩

/-- A CPU decides whose quota its child counts against; if it is one, the CPU has the lock and still
has to count. -/
theorem Kept.rejoin {child : Nat} {next : Phase} (kept : sys.Kept) (wf : sys.Wf)
    (makes : (sys.phase cpu).child? = some child)
    (table : after.table = (sys.setRl child rl).table) (goes : sys.Goes after cpu next)
    (small : rl.quotaRoot < sys.nextPid)
    (limit : rl.maxProcs = 0 ∨ rl.maxProcs = (sys.table child).rl.maxProcs)
    (joins : rl.quotaRoot ≠ 0 →
      next.deciding? = some child ∧ sys.spawnCommitLock = some cpu) (knows : after.Knows cpu next) :
    after.Kept := by
  obtain ⟨nextPid, capacity, phase, lock⟩ := goes
  have new : after.table child = { sys.table child with rl := rl } := by simp [table, setRl]
  have others : ∀ i, i ≠ child → after.table i = sys.table i := by
    intro i other
    simp [table, setRl, other]
  have allocating := wf.children cpu child makes
  have live : ∀ i, (after.table i).isLive = (sys.table i).isLive := by
    simp [table, Process.isLive]
  have pid : ∀ i, (after.table i).pid = (sys.table i).pid := by simp [table]
  refine ⟨kept.numbered.shrink nextPid (fun i alive => live i ▸ alive) pid fun i => ?_, fun d => ?_,
    fun root alive limited => ?_⟩
  · by_cases same : i = child
    · rw [same, new]
      exact small
    · rw [others i same]
      exact kept.numbered.quotas i
  · by_cases same : d = cpu
    · subst same
      rw [phase, update_self]
      exact knows
    rw [phase, update_of_ne same]
    refine (kept.knows d).frame kept.numbered (lock d same) capacity.ge (fun q made => ?_)
      (fun q committing => ?_) (fun held rootPid nonzero i member => ?_)
      fun i alive _ => ⟨live i ▸ alive, pid i⟩
    · rw [others q]
      rintro rfl
      exact same (wf.own d cpu q made makes)
    · rw [System.childQuota, others, ← System.childQuota]
      rintro rfl
      simp [wf.parents d q (Phase.parent?_of_committing committing)] at allocating
    · -- Nobody can join while another CPU has the lock.
      rw [member_iff] at member ⊢
      by_cases joined : i = child
      · subst joined
        rw [new] at member
        have mine := (joins (member.2 ▸ nonzero)).2
        rw [held] at mine
        exact absurd (Option.some.inj mine) same
      · rwa [others i joined] at member
  · have unchanged : (after.table root).rl.maxProcs = (sys.table root).rl.maxProcs := by
      by_cases same : root = child
      · subst same
        rw [new] at limited ⊢
        rcases limit with none | same
        · exact absurd none limited
        · exact same
      · rw [others root same]
    rw [unchanged] at limited ⊢
    rw [live] at alive
    rw [pid]
    have number := kept.numbered.pid_ne_zero alive
    refine le_trans (quotaCount_le wf fun i admitted => ?_) (kept.bound root alive limited)
    obtain ⟨member, undecided⟩ := admitted
    rw [member_iff] at member
    have other : i ≠ child := by
      rintro rfl
      rw [new] at member
      have nonzero : rl.quotaRoot ≠ 0 := by
        rw [member.2]
        exact number
      have mine := undecided cpu
      rw [phase, update_self] at mine
      exact mine (joins nonzero).1
    rw [others i other] at member
    refine ⟨member_iff.mpr member, fun d deciding => ?_⟩
    have now := undecided d
    rw [phase] at now
    by_cases same : d = cpu
    · subst same
      have made := Phase.child?_of_deciding deciding
      rw [makes] at made
      exact other (Option.some.inj made).symm
    · rw [update_of_ne same] at now
      exact now deciding

theorem isLive_setState {state : ProcessState} (ended : state = .terminated ∨ state = .unused)
    (live : ((sys.setState slot state).table i).isLive = true) : (sys.table i).isLive = true := by
  by_cases same : i = slot
  · subst same
    rcases ended with rfl | rfl <;> simp [System.setState, Process.isLive] at live
  · simpa [System.setState, same] using live

theorem alike_setUid (sys : System cpus) (slot : Nat) (uid : UInt32) (i : Nat) :
    Alike (sys.table i) ((sys.setUid slot uid).table i) := by
  by_cases same : i = slot
  · subst same
    constructor <;> simp [System.setUid, Process.isLive]
  · simpa [System.setUid, same] using Alike.refl _

/-- A process that is published counted before. -/
theorem alike_publish (allocating : (sys.table slot).state = .allocating) (i : Nat) :
    Alike (sys.table i) ((sys.setState slot .published).table i) := by
  by_cases same : i = slot
  · subst same
    constructor <;> simp [System.setState, Process.isLive, allocating]
  · simpa [System.setState, same] using Alike.refl _

/-- Where the processes stay as they are and no CPU goes on, the quotas are kept. -/
theorem Kept.alike (kept : sys.Kept) (wf : sys.Wf)
    (alike : ∀ i, Alike (sys.table i) (after.table i)) (rests : sys.Rests after) : after.Kept :=
  kept.quiet wf rests (fun i live => (alike i).live ▸ live)
    (fun i => (alike i).pid) (fun i => (alike i).quotaRoot) (fun _ q _ => (alike q).maxProcs)
    fun root => .inl (alike root).maxProcs

theorem processFindLive_spec (found : sys.processFindLive pid = some slot) :
    (sys.table slot).isLive = true ∧ (sys.table slot).pid = pid := by
  have holds := List.find?_some found
  simp only [Bool.and_eq_true, decide_eq_true_eq] at holds
  exact ⟨holds.2, holds.1⟩

theorem processFindLive_none (wf : sys.Wf) (gone : sys.processFindLive pid = none)
    (live : (sys.table i).isLive = true) : (sys.table i).pid ≠ pid := by
  intro named
  have inside := List.mem_range.mpr (inside_of_live wf live)
  simpa [named, live] using List.find?_eq_none.mp gone i inside

/-- A scan that is through has counted everybody. -/
theorem quotaCount_scanned {seen : Nat} (inside : ∀ i, sys.member rootPid i = true → i < capacity)
    (done : capacity ≤ seen) :
    sys.quotaCount rootPid ≤
      ((range seen).filter fun i => sys.member rootPid i = true).card := by
  refine card_le_card fun i counted => ?_
  have member := (mem_filter.mp counted).2.1
  exact mem_filter.mpr ⟨mem_range.mpr ((inside i member).trans_le done), member⟩

theorem card_scanned_succ (sys : System cpus) (rootPid : Pid) (seen : Nat) :
    ((range (seen + 1)).filter fun i => sys.member rootPid i = true).card
      ≤ ((range seen).filter fun i => sys.member rootPid i = true).card
        + (sys.member rootPid seen).toNat := by
  rw [range_add_one, filter_insert]
  cases sys.member rootPid seen with
  | false | true => simp

/-- There is a place for the last one if the others do not fill the quota. -/
theorem le_of_allowed {members : Nat} (limited : rl.maxProcs ≠ 0) (some : 0 < members)
    (few : members ≤ processTableChunkSize * processTableMaxChunks)
    (allowed : rl.rlSpawnAllowed (.ofNat members - 1) = true) : members ≤ rl.maxProcs.toNat := by
  have small : processTableChunkSize * processTableMaxChunks < 2 ^ 32 := by decide
  have exact_ : (UInt32.ofNat members).toNat = members :=
    UInt32.toNat_ofNat_of_lt' (few.trans_lt small)
  have less : UInt32.ofNat members - 1 < rl.maxProcs := by
    simpa [RlimitState.rlSpawnAllowed, limited] using allowed
  rw [UInt32.lt_iff_toNat_lt, UInt32.toNat_sub_of_le _ _ (UInt32.le_iff_toNat_le.mpr ?_),
    exact_] at less
  · change members - 1 < _ at less
    omega
  · rw [exact_]
    exact some

/-- Each change keeps the quotas, one case for each. -/
theorem Kept.change {action : Action cpus} (kept : sys.Kept) (wf : sys.Wf)
    (notLowered : sys.NotLowered action) (undisturbed : sys.Undisturbed action)
    (change : sys.Change action after) : after.Kept := by
  cases change with
  | idle => exact kept
  | @boot slot capacity uid found =>
    have claimed := kept.claim wf found
    have named := claimed.alike (wf.claim found).1 (alike_setUid _ slot uid) {}
    have wf' : ((sys.claim slot capacity).setUid slot uid).Wf :=
      (wf.claim found).1.congr rfl rfl (state_setUid _ slot uid)
    exact named.alike wf' (alike_publish (by simp [System.claim])) {}
  | @identify slot uid free => exact kept.alike wf (alike_setUid sys slot uid) {}
  | @exit slot free =>
    exact kept.quiet wf {} (fun i => isLive_setState (.inl rfl)) (pid_setState sys slot _)
      (fun i => by rw [rl_setState]) (fun _ i _ => by rw [rl_setState])
      fun i => .inl (by rw [rl_setState])
  | @reap slot terminated =>
    exact kept.quiet wf {} (fun i => isLive_setState (.inr rfl)) (pid_setState sys slot _)
      (fun i => by rw [rl_setState]) (fun _ i _ => by rw [rl_setState])
      fun i => .inl (by rw [rl_setState])
  | @set caller target pid request free agreed =>
    have others : ∀ rl i, i ≠ target →
        ((sys.setLimits target rl).table i).rl = (sys.table i).rl := by
      intro rl i other
      simp [System.setLimits, setRl, other]
    have new : ∀ rl, ((sys.setLimits target rl).table target).rl = rl := by
      intro rl
      simp [System.setLimits, setRl]
    refine kept.quiet wf {} (fun i live => ?_) (pid_setRl sys target _) (fun i => ?_)
      (fun cpu q committing => ?_) fun root => ?_
    · simpa [System.setLimits, Process.isLive] using live
    · by_cases same : i = target
      · rw [same, new, quotaRoot_apply]
      · rw [others _ i same]
    · by_cases same : q = target
      · rw [same, new, maxProcs_apply, if_neg]
        intro asked
        exact undisturbed free target agreed asked cpu (same ▸ committing)
      · rw [others _ q same]
    · by_cases same : root = target
      · rw [same, new, maxProcs_apply]
        split
        · exact .inr fun limited => notLowered free target agreed (by assumption) limited
        · exact .inl rfl
      · exact .inl (by rw [others _ root same])
  | @move _ cpu next before early parent =>
    refine kept.go wf cpu _ (fun _ => .refl _) { phase := rfl } ?_
      (Phase.undecided rfl (Phase.deciding?_of_unlocked before))
    cases next <;> trivial
  | @task cpu parent child capacity user free found =>
    -- A child that joins no quota.
    have claimed := (wf.claim found).1
    refine Kept.go (kept.claim wf found) claimed cpu (.committed parent child)
      (alike_setUid _ child 0) { phase := rfl } trivial (Phase.undecided user rfl)
  | @claim cpu parent child capacity phase found =>
    refine (kept.claim wf found).go (wf.claim found).1 cpu _ (fun _ => .refl _) { phase := rfl }
      ?_ (Phase.undecided phase rfl)
    change ((sys.claim child capacity).table child).rl.quotaRoot = 0
    simp [System.claim, rlReset]
  | @root cpu parent child phase =>
    refine kept.go wf cpu _ (alike_setUid sys child _) { phase := rfl }
      ⟨?_, (Alike.childQuota (alike_setUid sys child _) parent).symm⟩ (Phase.undecided phase rfl)
    exact (alike_setUid sys child _ child).quotaRoot.trans (kept.known phase)
  | @inherit cpu parent child phase =>
    -- There was no quota when it was looked up, and there is none now.
    have none : ((sys.table parent).rl.rlInherit (sys.table parent).pid).quotaRoot = 0 :=
      (kept.known phase).2.symm
    refine kept.rejoin wf (by rw [phase]; rfl) rfl { phase := rfl } ?_ (.inl rfl)
      (fun some => absurd none some) trivial
    rw [none]
    exact lt_of_lt_of_le Int.zero_lt_one kept.numbered.positive
  | @lock cpu parent child rootPid phase nonzero unlocked =>
    refine kept.go wf cpu _ (fun _ => .refl _) { phase := rfl, lock := fun d _ held => ?_ }
      ⟨rfl, nonzero, kept.known phase⟩ (Phase.undecided phase rfl)
    rw [unlocked] at held
    cases held
  | @join cpu parent child rootPid phase =>
    obtain ⟨held, nonzero, -, looked⟩ := kept.known phase
    have published := wf.parents cpu parent (by rw [phase]; rfl)
    refine kept.rejoin wf (by rw [phase]; rfl) rfl { phase := rfl }
      (kept.numbered.childQuota_lt published) (.inl rfl) (fun _ => ⟨rfl, held⟩)
      ⟨held, nonzero, ?_⟩
    rw [looked]
    simp [System.inherit, System.enter, setRl, System.childQuota, RlimitState.rlInherit]
  | @lapse cpu parent child rootPid phase gone =>
    obtain ⟨held, -, joined⟩ := kept.known phase
    refine kept.go wf cpu _ (fun _ => .refl _)
      { phase := rfl, lock := fun d other again => ?_ } trivial
      fun q deciding => .inr fun root live limited named => ?_
    · exact absurd (Option.some.inj (again.symm.trans held)) other
    · rw [phase] at deciding
      obtain rfl := Option.some.inj deciding
      exact absurd (named.trans joined) (processFindLive_none wf gone live)
  | @find cpu parent child root rootPid phase found =>
    obtain ⟨held, nonzero, joined⟩ := kept.known phase
    obtain ⟨live, named⟩ := processFindLive_spec found
    refine kept.go wf cpu _ (fun _ => .refl _) { phase := rfl }
      ⟨held, nonzero, joined, fun i alive same => ?_, fun i member => ?_, by simp, Nat.le_refl _,
        Nat.zero_le _, Nat.le_refl _⟩ fun q deciding => .inl ?_
    · exact kept.numbered.unique i root alive live (same.trans named.symm)
    · exact inside_of_live wf (member_iff.mp member).1
    · rw [phase] at deciding
      exact deciding
  | @count cpu parent child root rootPid capacity seen members phase more =>
    obtain ⟨held, nonzero, joined, only, inside, counted, few, -, grown⟩ := kept.known phase
    refine kept.go wf cpu _ (fun _ => .refl _) { phase := rfl }
      ⟨held, nonzero, joined, only, inside, ?_, ?_, more, grown⟩ fun q deciding => .inl ?_
    · exact (card_scanned_succ sys rootPid seen).trans (Nat.add_le_add_right counted _)
    · exact Nat.add_le_add few (Bool.toNat_le _)
    · rw [phase] at deciding
      exact deciding
  | @agree cpu parent child root rootPid capacity seen members phase done allowed =>
    obtain ⟨held, nonzero, joined, only, inside, counted, few, early, grown⟩ := kept.known phase
    refine kept.go wf cpu _ (fun _ => .refl _)
      { phase := rfl, lock := fun d other again => ?_ } trivial
      fun q deciding => .inr fun r live limited named => ?_
    · exact absurd (Option.some.inj (again.symm.trans held)) other
    rw [phase] at deciding
    obtain rfl := Option.some.inj deciding
    obtain rfl := only r live (named.trans joined)
    -- The child was counted with the others.
    have alive := isLive_of_state (.inr (wf.children cpu child (by rw [phase]; rfl)))
    have member : sys.member rootPid child = true := member_iff.mpr ⟨alive, joined⟩
    have itself : child ∈ (range seen).filter fun i => sys.member rootPid i = true :=
      mem_filter.mpr
        ⟨mem_range.mpr ((inside child member).trans_le done), member⟩
    have one := card_pos.mpr ⟨child, itself⟩
    rw [named, joined]
    refine le_trans (quotaCount_scanned inside done) (counted.trans ?_)
    have bounded := wf.bounded
    exact le_of_allowed limited (one.trans_le counted) (by omega) allowed
  | @refuse cpu parent child root rootPid capacity seen members phase =>
    have knows := kept.known phase
    refine kept.rejoin wf (by rw [phase]; rfl) rfl
      { phase := rfl, lock := fun d other again => ?_ } ?_
      (.inr rfl) (fun some => absurd rfl some) trivial
    · exact absurd (Option.some.inj (again.symm.trans knows.1)) other
    · exact lt_of_lt_of_le Int.zero_lt_one kept.numbered.positive
  | @publish cpu parent child phase =>
    have allocating := wf.children cpu child (by rw [phase]; rfl)
    exact kept.go wf cpu _ (alike_publish allocating) { phase := rfl } trivial
      (Phase.undecided phase rfl)

theorem Kept.boot : ({} : System cpus).Kept where
  numbered :=
    { positive := le_refl _
      live := fun _ absurd => by cases absurd
      unique := fun _ _ absurd => by cases absurd
      quotas := fun _ => Int.zero_lt_one }
  knows _ := trivial
  bound _ absurd := by cases absurd

/-- And so does a whole run. -/
theorem Kept.run (kept : sys.Kept) (wf : sys.Wf) {actions : List (Action cpus)}
    (notLowered : Along NotLowered sys actions) (undisturbed : Along Undisturbed sys actions) :
    (sys.run actions).Kept := by
  induction actions generalizing sys with
  | nil => exact kept
  | cons action rest ih =>
    have change := sys.change_step action
    exact ih (kept.change wf notLowered.1 undisturbed.1 change) (wf.change change) notLowered.2
      undisturbed.2

/-- However many CPUs make children at the same time, no more processes count against the quota of a
live process than it allows, if no quota is set below its count, or while it is being looked up. -/
theorem quota_kept (actions : List (Action cpus)) (notLowered : Along NotLowered {} actions)
    (undisturbed : Along Undisturbed {} actions) (root : Nat)
    (live : ((({} : System cpus).run actions).table root).isLive = true)
    (limited : ((({} : System cpus).run actions).table root).rl.maxProcs ≠ 0) :
    (({} : System cpus).run actions).quotaCount ((({} : System cpus).run actions).table root).pid
      ≤ ((({} : System cpus).run actions).table root).rl.maxProcs.toNat :=
  (Kept.boot.run Wf.boot notLowered undisturbed).bound root live limited

set_option maxRecDepth 4000

/-- Two members that both pass the early check with one place left: one of them is refused. -/
theorem quota_kept_race :
    let actions : List (Action 2) :=
      [.boot 0, .set 0 0 ⟨rlMaskProcs, 0, 0, 0, 2⟩, .spawn 0 0] ++ List.replicate 72 (.go 0) ++
        [.spawn 0 0, .spawn 1 1] ++ List.replicate 33 (.go 0) ++ List.replicate 33 (.go 1) ++
        List.replicate 39 (.go 0) ++ List.replicate 39 (.go 1)
    let after := ({} : System 2).run actions
    after.phase 0 = .user ∧ after.phase 1 = .user ∧ (after.table 3).state = .allocating ∧
      after.quotaCount (after.table 0).pid ≤ (after.table 0).rl.maxProcs.toNat := by
  refine ⟨by decide, by decide, by decide, ?_⟩
  exact quota_kept _ (by decide) (by decide) 0 (by decide) (by decide)

/-- A process has one child in its quota, and root lifts the quota. While the process makes another
child, root sets the quota to one again, which is the count; the child then joins it unasked. -/
theorem quota_overrun :
    let actions : List (Action 2) :=
      [.boot 0, .boot 0, .set 0 0 ⟨rlMaskProcs, 0, 0, 0, 1⟩, .spawn 0 0] ++
        List.replicate 72 (.go 0) ++
        [.set 1 1 ⟨rlMaskProcs, 0, 0, 0, 0⟩, .spawn 0 0, .go 0, .go 0,
          .set 1 1 ⟨rlMaskProcs, 0, 0, 0, 1⟩, .go 0, .go 0]
    let after := ({} : System 2).run actions
    Along NotLowered {} actions ∧ (after.table 0).isLive = true ∧
      (after.table 0).rl.maxProcs = 1 ∧ after.quotaCount (after.table 0).pid = 2 := by
  decide

end System

end NovaOs.Limits
