import NovaOs.Limits.Steps

/-! Without root, limits only ever get tighter, from parent to child and from call to call. -/

namespace NovaOs.Limits

open List

variable {rl : RlimitState} {uid : UInt32} {self : Bool} {request : Request}

/-- One value of a limit is no looser than another; `0` is no limit at all. -/
def NoLooser (value other : UInt32) : Prop :=
  other = 0 ∨ value ≠ 0 ∧ value ≤ other

theorem NoLooser.refl (value : UInt32) : NoLooser value value := by
  by_cases zero : value = 0
  · exact .inl zero
  · exact .inr ⟨zero, UInt32.le_refl value⟩

theorem NoLooser.trans {value middle other : UInt32} (first : NoLooser value middle)
    (second : NoLooser middle other) : NoLooser value other := by
  rcases second with none | ⟨some, below⟩
  · exact .inl none
  · rcases first with absurd | ⟨nonzero, less⟩
    · exact (some absurd).elim
    · exact .inr ⟨nonzero, UInt32.le_trans less below⟩

theorem noLooser_iff {cur requested : UInt32} :
    NoLooser requested cur ↔ loosens cur requested = false := by
  simp only [NoLooser, loosens, Bool.and_eq_false_iff, decide_eq_false_iff_not, ne_eq, not_not,
    Bool.or_eq_false_iff, UInt32.not_lt]

/-- The memory, CPU share and CPU time of one state are no looser than those of another. -/
structure RlimitState.NoLooser (rl other : RlimitState) : Prop where
  vm : Limits.NoLooser rl.maxVmPages other.maxVmPages
  pct : Limits.NoLooser rl.cpuPercent other.cpuPercent
  time : Limits.NoLooser rl.cpuTimeTicks other.cpuTimeTicks

theorem RlimitState.NoLooser.trans {middle other : RlimitState} (first : rl.NoLooser middle)
    (second : middle.NoLooser other) : rl.NoLooser other :=
  ⟨first.vm.trans second.vm, first.pct.trans second.pct, first.time.trans second.time⟩

theorem RlimitState.NoLooser.refl (rl : RlimitState) : rl.NoLooser rl :=
  ⟨.refl _, .refl _, .refl _⟩

/-- A process in force of its past: no limit is looser than one that was in force before on it or on
the process it comes from, and it counts against every quota it or that one ever counted against,
unless root gave someone a quota within a quota (`plain` is that it did not). -/
structure Tightened (plain : Prop) (rl : RlimitState) (past : Past) : Prop where
  limits : ∀ before ∈ past.limits, rl.NoLooser before
  quotas : plain → ∀ root ∈ past.quotas, rl.quotaRoot = root
  real : 0 ∉ past.quotas
  single : plain → rl.quotaRoot ≠ 0 → rl.maxProcs = 0

section

variable {plain : Prop}

theorem Tightened.reset : Tightened plain rlReset { limits := [rlReset] } where
  limits before member := by
    obtain rfl := mem_singleton.mp member
    exact .refl _
  quotas _ _ member := by cases member
  real := not_mem_nil
  single _ absurd := (absurd rfl).elim

/-- A child has the limits of its parent and counts against the same quota. -/
theorem Tightened.inherit {past : Past} (tight : Tightened plain rl past) (pid : Pid) :
    Tightened plain (rl.rlInherit pid)
      { limits := past.limits
        quotas :=
          if (rl.rlInherit pid).quotaRoot = 0 then past.quotas
          else (rl.rlInherit pid).quotaRoot :: past.quotas } where
  limits before member :=
    have loose := tight.limits before member
    ⟨loose.vm, loose.pct, loose.time⟩
  quotas holds root member := by
    -- A parent with a quota to count against has none of its own.
    have old : root ∈ past.quotas → (rl.rlInherit pid).quotaRoot = root := by
      intro former
      have same := tight.quotas holds root former
      have none : rl.maxProcs = 0 :=
        tight.single holds fun zero => tight.real ((same.symm.trans zero) ▸ former)
      simp only [RlimitState.rlInherit, RlimitState.rlChildQuotaRoot, none, ne_eq,
        not_true_eq_false, if_false]
      exact same
    split at member
    · exact old member
    · rcases mem_cons.mp member with new | former
      · exact new.symm
      · exact old former
  real := by
    split
    · exact tight.real
    rename_i nonzero
    intro member
    rcases mem_cons.mp member with zero | former
    · exact nonzero zero.symm
    · exact tight.real former
  single _ _ := rfl

end

/-- What the check asks of a caller that is not root. -/
theorem rlCheckSet_nonroot {cur : RlimitState} (nonroot : uid ≠ 0)
    (agreed : cur.rlCheckSet uid self request = 0) :
    self = true ∧ (request.asks rlMaskVm = true → NoLooser request.vm cur.maxVmPages) ∧
      (request.asks rlMaskCpuPct = true → NoLooser request.pct cur.cpuPercent) ∧
      (request.asks rlMaskCpuTime = true → NoLooser request.cpuTime cur.cpuTimeTicks) ∧
      (request.asks rlMaskProcs = true → cur.quotaRoot = 0) := by
  have eperm : -rlEperm ≠ 0 := by decide
  have einval : -rlEinval ≠ 0 := by decide
  unfold RlimitState.rlCheckSet at agreed
  split at agreed
  · exact absurd agreed einval
  split at agreed
  · exact absurd agreed einval
  split at agreed
  · exact absurd agreed eperm
  rename_i own
  split at agreed
  · exact absurd agreed eperm
  rename_i vm
  split at agreed
  · exact absurd agreed eperm
  rename_i pct
  split at agreed
  · exact absurd agreed eperm
  rename_i time
  split at agreed
  · exact absurd agreed eperm
  rename_i procs
  simp only [noLooser_iff]
  refine ⟨by simpa [nonroot] using own, fun asked => ?_, fun asked => ?_, fun asked => ?_,
    fun asked => ?_⟩
  · simpa [asked] using vm
  · simpa [asked] using pct
  · simpa [asked] using time
  · by_contra counted
    exact procs ⟨asked, .inl counted⟩

/-- A process that is not root can only tighten its own limits. -/
theorem Tightened.apply {plain : Prop} {past : Past} (tight : Tightened plain rl past)
    (nonroot : uid ≠ 0) (agreed : rl.rlCheckSet uid self request = 0) :
    Tightened plain (rl.rlApplySet request)
      { past with limits := rl.rlApplySet request :: past.limits } := by
  obtain ⟨-, vm, pct, time, procs⟩ := rlCheckSet_nonroot nonroot agreed
  have tighter : (rl.rlApplySet request).NoLooser rl := by
    refine ⟨?_, ?_, ?_⟩
    · rw [maxVmPages_apply]
      split
      · exact vm (by assumption)
      · exact .refl _
    · rw [cpuPercent_apply]
      split
      · exact pct (by assumption)
      · exact .refl _
    · rw [cpuTimeTicks_apply]
      split
      · exact time (by assumption)
      · exact .refl _
  refine ⟨fun before member => ?_, ?_, tight.real, fun holds nonzero => ?_⟩
  · rcases mem_cons.mp member with new | former
    · rw [new]
      exact .refl _
    · exact tighter.trans (tight.limits before former)
  · simpa using tight.quotas
  · rw [quotaRoot_apply] at nonzero
    rw [maxProcs_apply, if_neg fun asked => nonzero (procs asked)]
    exact tight.single holds nonzero

namespace System

variable {cpus : Nat} {sys after : System cpus} {plain : Prop} {cpu : Fin cpus} {next : Phase}
  {slot : Nat} {actions : List (Action cpus)}

/-- A process that is published, or a child that has taken over the limits of its parent. -/
def Settled (sys : System cpus) (slot : Nat) : Prop :=
  (sys.table slot).state = .published ∨ ∃ cpu, (sys.phase cpu).settled? = some slot

/-- The limits in force now are all there is to remember. -/
def forget (sys : System cpus) : System cpus :=
  { sys with
    past := fun slot =>
      { limits := [(sys.table slot).rl]
        quotas :=
          if (sys.table slot).rl.quotaRoot = 0 then [] else [(sys.table slot).rl.quotaRoot] } }

/-- Root has given nobody a quota who counts against one. -/
def Plain (sys : System cpus) : Prop :=
  ∀ slot, sys.Settled slot → (sys.table slot).rl.quotaRoot ≠ 0 → (sys.table slot).rl.maxProcs = 0

/-- Every process lives up to its past. -/
def Tight (plain : Prop) (sys : System cpus) : Prop :=
  ∀ slot, sys.Settled slot → Tightened plain (sys.table slot).rl (sys.past slot)

/-- Limits are set by callers that are not root, and no process is made by `SYS_SPAWN`. -/
def Ordinary (sys : System cpus) : Action cpus → Prop
  | .set caller _ _ => (sys.table caller).uid ≠ 0
  | .task .. => False
  | _ => True

instance decidableOrdinary (sys : System cpus) (action : Action cpus) :
    Decidable (sys.Ordinary action) :=
  match action with
  | .set caller _ _ => inferInstanceAs (Decidable ((sys.table caller).uid ≠ 0))
  | .task .. => isFalse id
  | .boot _ | .identify .. | .exit _ | .reap _ | .spawn .. | .go _ | .fail _ => isTrue trivial

/-- A step that gives no process other limits and settles no child keeps them tight. -/
theorem Tight.congr (tight : Tight plain sys)
    (settled : ∀ slot, after.Settled slot → sys.Settled slot)
    (rl : ∀ slot, after.Settled slot → (after.table slot).rl = (sys.table slot).rl)
    (past : ∀ slot, after.Settled slot → after.past slot = sys.past slot) : Tight plain after := by
  intro slot now
  rw [rl slot now, past slot now]
  exact tight slot (settled slot now)

theorem settled_enter (settled : (sys.enter cpu next).Settled slot) :
    sys.Settled slot ∨ next.settled? = some slot := by
  rcases settled with published | ⟨c, named⟩
  · exact .inl (.inl published)
  · rw [phase_enter] at named
    split at named
    · exact .inr named
    · exact .inl (.inr ⟨c, named⟩)

/-- A process that ends settles nothing. -/
theorem settled_setState {i : Nat} {state : ProcessState} (unpublished : state ≠ .published)
    (settled : (sys.setState slot state).Settled i) : sys.Settled i := by
  rcases settled with published | settled
  · by_cases same : i = slot
    · subst same
      exact absurd (by simpa [setState] using published) unpublished
    · exact .inl (by simpa [setState, same] using published)
  · exact .inr settled

theorem settled_setUid {i : Nat} (settled : (sys.setUid slot uid).Settled i) : sys.Settled i := by
  rcases settled with published | settled
  · exact .inl (by simpa using published)
  · exact .inr settled

/-- A CPU goes on without settling a child. -/
theorem Tight.enter (tight : Tight plain sys)
    (kept : ∀ child, next.settled? = some child → (sys.phase cpu).settled? = some child) :
    Tight plain (sys.enter cpu next) := by
  refine tight.congr (fun slot settled => ?_) (fun _ _ => rfl) fun _ _ => rfl
  rcases settled_enter settled with before | named
  · exact before
  · exact .inr ⟨cpu, kept slot named⟩

/-- A child that is not settled takes over the limits of its parent. -/
theorem Tight.inherit {parent child : Nat} (tight : Tight plain sys) (wf : sys.Wf)
    (works : (sys.phase cpu).parent? = some parent) (makes : (sys.phase cpu).child? = some child)
    (settles : next.settled? = some child) :
    Tight plain ((sys.inherit parent child).enter cpu next) := by
  have published := wf.parents cpu parent works
  intro slot settled
  by_cases same : slot = child
  · subst same
    have passed := (tight parent (.inl published)).inherit (sys.table parent).pid
    simpa [System.inherit, setRl, System.enter] using passed
  have before : sys.Settled slot := by
    rcases settled_enter settled with before | named
    · rcases before with published | settled
      · exact .inl (by simpa [System.inherit] using published)
      · exact .inr settled
    · rw [settles] at named
      exact absurd (Option.some.inj named).symm same
  have kept := tight slot before
  simpa [System.inherit, setRl, System.enter, same] using kept

/-- A caller that is not root sets limits of its own. -/
theorem rlimitSys_nonroot {caller target : Nat} {pid : Pid} (nonroot : (sys.table caller).uid ≠ 0)
    (agreed : (sys.rlimitSys caller pid request).2 = some target) :
    target = caller ∧
      (sys.table caller).rl.rlCheckSet (sys.table caller).uid true request = 0 := by
  by_cases self : (if pid = 0 then (sys.table caller).pid else pid) = (sys.table caller).pid
  · simp only [rlimitSys, self, decide_true, Bool.not_true, Bool.false_eq_true, false_and, if_false,
      if_true] at agreed
    split at agreed
    · cases agreed
    · rename_i zero
      exact ⟨(Option.some.inj agreed).symm, by simpa using zero⟩
  · simp [rlimitSys, self, nonroot] at agreed

/-- No change of an ordinary process loosens a limit. -/
theorem Tight.change {action : Action cpus} (tight : Tight plain sys) (wf : sys.Wf)
    (ordinary : sys.Ordinary action) (change : sys.Change action after) : Tight plain after := by
  cases change with
  | idle => exact tight
  | @boot slot capacity uid found =>
    intro i settled
    by_cases same : i = slot
    · subst same
      simpa [System.claim, System.setUid, System.setState] using Tightened.reset
    have before : sys.Settled i := by
      rcases settled with published | settled
      · exact .inl (by simpa [System.claim, System.setUid, System.setState, same] using published)
      · exact .inr settled
    simpa [System.claim, System.setUid, System.setState, same] using tight i before
  | @identify slot uid free =>
    exact tight.congr (fun i => settled_setUid) (fun i _ => rl_setUid ..) fun _ _ => rfl
  | @exit slot free | @reap slot terminated =>
    refine tight.congr (fun i settled => ?_) (fun i _ => rl_setState ..) fun _ _ => rfl
    exact settled_setState (by decide) settled
  | @set caller target pid request free agreed =>
    obtain ⟨rfl, checked⟩ := rlimitSys_nonroot ordinary agreed
    obtain ⟨published, -⟩ := free_spec free
    intro i settled
    have before : sys.Settled i := by
      rcases settled with published | settled
      · exact .inl (by simpa [System.setLimits] using published)
      · exact .inr settled
    by_cases same : i = target
    · subst same
      have passed := (tight i before).apply ordinary checked
      simpa [System.setLimits, setRl] using passed
    · simpa [System.setLimits, setRl, same] using tight i before
  | task => exact ordinary.elim
  | @move _ cpu next before early parent =>
    refine tight.enter fun child named => ?_
    have none := Phase.child?_of_early early
    rw [Phase.child?_of_settled named] at none
    cases none
  | @claim cpu parent child capacity phase found =>
    obtain ⟨-, apart⟩ := wf.claim found
    intro i settled
    -- The child is not settled yet, and nobody else has the slot.
    have other : i ≠ child := by
      rintro rfl
      rcases settled_enter settled with now | named
      · rcases now with published | ⟨c, named⟩
        · simp [System.claim] at published
        · exact apart c (Phase.child?_of_settled named)
      · cases named
    have before : sys.Settled i := by
      rcases settled_enter settled with now | named
      · rcases now with published | settled
        · exact .inl (by simpa [System.claim, other] using published)
        · exact .inr settled
      · cases named
    simpa [System.claim, System.enter, other] using tight i before
  | @root cpu parent child phase =>
    have named : Tight plain (sys.setUid child (sys.table parent).uid) := by
      exact tight.congr (fun i => settled_setUid) (fun i _ => rl_setUid ..) fun _ _ => rfl
    exact named.enter fun child named => by cases named
  | @inherit cpu parent child phase | @join cpu parent child rootPid phase =>
    exact tight.inherit wf (by rw [phase]; rfl) (by rw [phase]; rfl) rfl
  | @lock cpu parent child rootPid phase nonzero unlocked =>
    exact tight.enter fun child named => by cases named
  | @lapse cpu parent child rootPid phase gone | @find cpu parent child root rootPid phase found
  | @count cpu parent child root rootPid capacity seen members phase more
  | @agree cpu parent child root rootPid capacity seen members phase done allowed =>
    exact tight.enter fun child named => by rw [phase]; exact named
  | @refuse cpu parent child root rootPid capacity seen members phase =>
    have makes : (sys.phase cpu).child? = some child := by rw [phase]; rfl
    have unpublished := wf.children cpu child makes
    intro i settled
    rcases settled with published | ⟨c, settled⟩
    · have before : (sys.table i).state = .published := by
        simpa [System.enter] using published
      have other : i ≠ child := by
        rintro rfl
        simp [unpublished] at before
      simpa [System.enter, setRl, other] using tight i (.inl before)
    have before : (if c = cpu then Phase.user else sys.phase c).settled? = some i := by
      rw [← phase_enter]
      exact settled
    split at before
    · cases before
    rename_i another
    have other : i ≠ child := by
      rintro rfl
      exact another (wf.own c cpu i (Phase.child?_of_settled before) makes)
    simpa [System.enter, setRl, other] using tight i (.inr ⟨c, before⟩)
  | @publish cpu parent child phase =>
    refine tight.congr (fun i settled => ?_) (fun i _ => rl_setState ..) fun _ _ => rfl
    rcases settled_enter settled with now | named
    · by_cases same : i = child
      · exact .inr ⟨cpu, by rw [phase, same]; rfl⟩
      · rcases now with published | settled
        · exact .inl (by simpa [System.setState, same] using published)
        · exact .inr settled
    · cases named

theorem Tight.run (tight : Tight plain sys) (wf : sys.Wf) (ordinary : Along Ordinary sys actions) :
    Tight plain (sys.run actions) := by
  induction actions generalizing sys with
  | nil => exact tight
  | cons action rest ih =>
    have change := sys.change_step action
    exact ih (tight.change wf ordinary.1 change) (wf.change change) ordinary.2

/-- From here on only the limits in force now count as former ones. -/
theorem Tight.forget (sys : System cpus) : Tight sys.Plain sys.forget := by
  intro slot settled
  refine ⟨fun before member => ?_, fun _ root member => ?_, ?_, fun plain => plain slot settled⟩
  · rw [mem_singleton.mp member]
    exact .refl _
  · simp only [System.forget] at member
    split at member
    · cases member
    · exact (mem_singleton.mp member).symm
  · simp only [System.forget]
    split
    · exact not_mem_nil
    · rename_i nonzero
      exact fun member => nonzero (mem_singleton.mp member).symm

/-- Without root nobody comes by a quota within a quota. -/
theorem Plain.run (plain : sys.Plain) (wf : sys.Wf) (ordinary : Along Ordinary sys.forget actions) :
    (sys.forget.run actions).Plain := by
  intro slot settled
  have tight := (Tight.forget sys).run (wf.congr rfl rfl fun _ => rfl) ordinary
  exact (tight slot settled).single plain

/-- Whatever root has set up, from then on, in any run in which nobody who is root sets limits and
nobody makes a process by `SYS_SPAWN`, no process has limits looser than those that were in force on
it or on the processes it comes from, and each stays with the quota it or they counted against. -/
theorem limits_only_tighten (setup actions : List (Action cpus))
    (ordinary : Along Ordinary (({} : System cpus).run setup).forget actions) (slot : Nat)
    (published : (((({} : System cpus).run setup).forget.run actions).table slot).state
      = .published) :
    let before := ({} : System cpus).run setup
    let after := before.forget.run actions
    (∀ former ∈ (after.past slot).limits, (after.table slot).rl.NoLooser former) ∧
      (before.Plain → ∀ root ∈ (after.past slot).quotas,
        (after.table slot).rl.quotaRoot = root) := by
  have wf : (({} : System cpus).run setup).forget.Wf :=
    (Wf.boot.run setup).congr rfl rfl fun _ => rfl
  have tight := (Tight.forget _).run wf ordinary slot (.inl published)
  exact ⟨tight.limits, tight.quotas⟩

set_option maxRecDepth 1000

/-- A process under a quota that root gave its parent tightens its own share of the CPU. -/
theorem limits_only_tighten_child :
    let setup : List (Action 1) :=
      [.boot 0, .set 0 0 ⟨rlMaskCpuPct ||| rlMaskProcs, 0, 50, 0, 2⟩,
        .identify 0 1000]
    let actions : List (Action 1) :=
      .spawn 0 0 :: List.replicate 72 (.go 0) ++
        [.set 1 0 ⟨rlMaskCpuPct, 0, 20, 0, 0⟩, .set 1 0 ⟨rlMaskCpuPct, 0, 40, 0, 0⟩]
    let before := ({} : System 1).run setup
    let after := before.forget.run actions
    (after.table 1).rl.cpuPercent = 20 ∧ (after.past 1).quotas = [1] ∧
      (∀ former ∈ (after.past 1).limits, (after.table 1).rl.NoLooser former) ∧
      (before.Plain → ∀ root ∈ (after.past 1).quotas, (after.table 1).rl.quotaRoot = root) := by
  refine ⟨by decide, by decide,
    limits_only_tighten _ _ (by decide) 1 (by decide)⟩

/-- A process of user 1000 that may have half of the CPU and one more process asks for a child by
`SYS_SPAWN`: the child runs without a limit and counts against nobody. -/
theorem spawned_unlimited :
    let setup : List (Action 1) :=
      [.boot 0, .set 0 0 ⟨rlMaskCpuPct ||| rlMaskProcs, 0, 50, 0, 1⟩, .identify 0 1000]
    let after := (({} : System 1).run setup).forget.run [.task 0 0, .go 0]
    (after.table 1).state = .published ∧ (after.table 1).rl = rlReset ∧
      ((after.table 0).rl.cpuPercent, (after.table 0).rl.maxProcs) = (50, 1) ∧
      ¬∀ former ∈ (after.past 1).limits, (after.table 1).rl.NoLooser former := by
  refine ⟨by decide, by decide, by decide, fun tight => ?_⟩
  have share := (tight _ (mem_singleton_self _)).pct
  rw [noLooser_iff] at share
  exact absurd share (by decide)

end System

end NovaOs.Limits
