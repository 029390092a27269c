import NovaOs.Lib.Ticks

/-! The rules of resource limits of `kernel/task/rlimit_policy.c`, one function at a time. -/

namespace NovaOs.Limits

/-- Process numbers; no process has number `0`. -/
abbrev Pid := Int

def rlWindowTicks : UInt32 := 100

inductive Verdict where
  | ok | throttle | killCpu
  deriving DecidableEq

def rlMaskVm : UInt32 := 1
def rlMaskCpuPct : UInt32 := 2
def rlMaskCpuTime : UInt32 := 4
def rlMaskProcs : UInt32 := 8
def rlMaskAll : UInt32 := 15

def rlEperm : Int := 1
def rlEinval : Int := 22

/-- The limits of a process, and what it has used of them. -/
structure RlimitState where
  -- A limit of `0` is none.
  maxVmPages : UInt32 := 0
  cpuPercent : UInt32 := 0
  cpuTimeTicks : UInt32 := 0
  maxProcs : UInt32 := 0
  cpuTicks : UInt32 := 0
  sliceStart : UInt32 := 0
  onCpu : Bool := false
  winStart : UInt32 := 0
  winUsed : UInt32 := 0
  winValid : Bool := false
  throttled : Bool := false
  throttleBegan : UInt32 := 0
  throttledTicks : UInt32 := 0
  throttleEvents : UInt32 := 0
  quotaRoot : Pid := 0
  deriving DecidableEq

/-- Neither limits nor usage. -/
def rlReset : RlimitState := {}

namespace RlimitState

/-- Whose quota a child counts against. -/
def rlChildQuotaRoot (parent : RlimitState) (parentPid : Pid) : Pid :=
  if parent.maxProcs ≠ 0 then parentPid else parent.quotaRoot

/-- A child has the limits of its parent, no usage, and a place in a quota but none of its own. -/
def rlInherit (parent : RlimitState) (parentPid : Pid) : RlimitState :=
  { rlReset with
    maxVmPages := parent.maxVmPages
    cpuPercent := parent.cpuPercent
    cpuTimeTicks := parent.cpuTimeTicks
    quotaRoot := parent.rlChildQuotaRoot parentPid }

variable (rl : RlimitState)

def rlNeedsTick : Bool :=
  rl.cpuPercent ≠ 0 || rl.cpuTimeTicks ≠ 0

/-- Moves the window on to the one the time is in, and releases the process if it moved. -/
def rlRoll (now : UInt32) : RlimitState :=
  let elapsed := now - rl.winStart
  if Ticks.diff now rl.winStart < rlWindowTicks.toNat then rl
  else
    let rl := { rl with
      winStart := rl.winStart + elapsed / rlWindowTicks * rlWindowTicks
      winUsed := 0 }
    if rl.throttled then
      { rl with
        throttledTicks := rl.throttledTicks + (now - rl.throttleBegan)
        throttled := false }
    else rl

/-- Charges the time from one tick to another. -/
def rlCharge (start now : UInt32) : RlimitState :=
  if Ticks.diff now start ≤ 0 then rl
  else
    let rl := { rl with cpuTicks := rl.cpuTicks + (now - start) }
    if rl.winValid then
      let rl := rl.rlRoll now
      -- What lies before the window belongs to an earlier one.
      let start := if Ticks.diff start rl.winStart < 0 then rl.winStart else start
      if 0 < Ticks.diff now start then { rl with winUsed := rl.winUsed + (now - start) } else rl
    else rl

def rlSwitchIn (now : UInt32) : RlimitState :=
  let rl := if !rl.winValid then { rl with winStart := now, winUsed := 0, winValid := true } else rl
  { rl with sliceStart := now, onCpu := true }

def rlSwitchOut (now : UInt32) : RlimitState :=
  if !rl.onCpu then rl else { rl.rlCharge rl.sliceStart now with onCpu := false }

/-- All the time used so far, the slice in progress with it. -/
def rlCpuTotal (now : UInt32) : UInt32 :=
  if rl.onCpu ∧ 0 < Ticks.diff now rl.sliceStart then rl.cpuTicks + (now - rl.sliceStart)
  else rl.cpuTicks

/-- The time used in the window the time is in. -/
def rlWindowUsed (now : UInt32) : UInt32 :=
  if !rl.winValid then 0
  else
    let moved : Bool := rlWindowTicks.toNat ≤ Ticks.diff now rl.winStart
    let winStart :=
      if moved then rl.winStart + (now - rl.winStart) / rlWindowTicks * rlWindowTicks
      else rl.winStart
    let used := if moved then 0 else rl.winUsed
    if rl.onCpu then
      let start := if Ticks.diff rl.sliceStart winStart < 0 then winStart else rl.sliceStart
      if 0 < Ticks.diff now start then used + (now - start) else used
    else used

def rlBudget : UInt32 :=
  if rl.cpuPercent = 0 then 0 else rlWindowTicks * rl.cpuPercent / 100

def rlVerdict (now : UInt32) : Verdict :=
  if rl.cpuTimeTicks ≠ 0 ∧ rl.cpuTimeTicks ≤ rl.rlCpuTotal now then .killCpu
  else if rl.cpuPercent ≠ 0 ∧ !rl.throttled ∧ rl.rlBudget ≤ rl.rlWindowUsed now then .throttle
  else .ok

def rlThrottle (now : UInt32) : RlimitState :=
  { rl with throttled := true, throttleBegan := now, throttleEvents := rl.throttleEvents + 1 }

/-- Releases the process if its window has ended. -/
def rlTickWindow (now : UInt32) : RlimitState :=
  if !rl.winValid then rl else rl.rlRoll now

end RlimitState

/-- Raising a limit, or removing one. -/
def loosens (cur requested : UInt32) : Bool :=
  cur ≠ 0 && (requested = 0 || cur < requested)

/-- A request to change limits. -/
structure Request where
  mask : UInt32
  vm : UInt32
  pct : UInt32
  cpuTime : UInt32
  procs : UInt32

/-- Whether a request asks for a limit. -/
def Request.asks (request : Request) (bit : UInt32) : Bool :=
  request.mask &&& bit ≠ 0

namespace RlimitState

/-- Whether a caller may make a change: `0`, or the negative of an error. -/
def rlCheckSet (callerUid : UInt32) (self : Bool) (cur : RlimitState) (request : Request) : Int :=
  if request.mask = 0 ∨ request.mask &&& ~~~rlMaskAll ≠ 0 then -rlEinval
  else if request.asks rlMaskCpuPct ∧ 100 < request.pct then -rlEinval
  else if !self ∧ callerUid ≠ 0 then -rlEperm
  else if callerUid = 0 then 0
  else if request.asks rlMaskVm ∧ loosens cur.maxVmPages request.vm then -rlEperm
  else if request.asks rlMaskCpuPct ∧ loosens cur.cpuPercent request.pct then -rlEperm
  else if request.asks rlMaskCpuTime ∧ loosens cur.cpuTimeTicks request.cpuTime then -rlEperm
  else if request.asks rlMaskProcs ∧ (cur.quotaRoot ≠ 0 ∨ loosens cur.maxProcs request.procs) then
    -rlEperm
  else 0

def rlApplySet (rl : RlimitState) (request : Request) : RlimitState :=
  let rl := if request.asks rlMaskVm then { rl with maxVmPages := request.vm } else rl
  let rl :=
    if request.asks rlMaskCpuPct then
      -- A cap that is removed does not keep the process waiting.
      { rl with
        cpuPercent := request.pct
        throttled := if request.pct = 0 then false else rl.throttled }
    else rl
  let rl := if request.asks rlMaskCpuTime then { rl with cpuTimeTicks := request.cpuTime } else rl
  if request.asks rlMaskProcs then { rl with maxProcs := request.procs } else rl

/-- Whether there is a place left in the quota of a process. -/
def rlSpawnAllowed (root : RlimitState) (liveMembers : UInt32) : Bool :=
  root.maxProcs = 0 || liveMembers < root.maxProcs

end RlimitState

section

variable (rl : RlimitState) (request : Request)

theorem maxVmPages_apply : (rl.rlApplySet request).maxVmPages
    = if request.asks rlMaskVm then request.vm else rl.maxVmPages := by
  simp only [RlimitState.rlApplySet, apply_ite RlimitState.maxVmPages, ite_self]

theorem cpuPercent_apply : (rl.rlApplySet request).cpuPercent
    = if request.asks rlMaskCpuPct then request.pct else rl.cpuPercent := by
  simp only [RlimitState.rlApplySet, apply_ite RlimitState.cpuPercent, ite_self]

theorem cpuTimeTicks_apply : (rl.rlApplySet request).cpuTimeTicks
    = if request.asks rlMaskCpuTime then request.cpuTime else rl.cpuTimeTicks := by
  simp only [RlimitState.rlApplySet, apply_ite RlimitState.cpuTimeTicks, ite_self]

theorem maxProcs_apply : (rl.rlApplySet request).maxProcs
    = if request.asks rlMaskProcs then request.procs else rl.maxProcs := by
  simp only [RlimitState.rlApplySet, apply_ite RlimitState.maxProcs, ite_self]

@[simp] theorem quotaRoot_apply : (rl.rlApplySet request).quotaRoot = rl.quotaRoot := by
  simp only [RlimitState.rlApplySet, apply_ite RlimitState.quotaRoot, ite_self]

end

end NovaOs.Limits
