import NovaOs.Limits.Policy
import Mathlib.Logic.Function.Basic

/-! Processes with limits on several CPUs: the quota of `kernel/task/rlimit.c` and the places of
`kernel/task/process.c` that ask for it, cut where another CPU can come in between. -/

namespace NovaOs.Limits

def processTableChunkSize : Nat := 32
def processTableMaxChunks : Nat := 64

/-- The state of a slot; a process is published whether it runs or is ready to. -/
inductive ProcessState where
  | unused | allocating | published | terminated
  deriving DecidableEq

structure Process where
  pid : Pid := 0
  state : ProcessState := .unused
  uid : UInt32 := 0
  rl : RlimitState := {}

/-- A slot counts as soon as it is claimed (`is_live_state`). -/
def Process.isLive (p : Process) : Bool :=
  p.state ≠ .unused && p.state ≠ .terminated

/-- Where the kernel is in making a child for the process a CPU runs. -/
inductive Phase where
  | user
  /-- The early check counts the members of a quota: so many slots to see, so many seen, so many
  members. -/
  | checking (parent root : Nat) (rootPid : Pid) (capacity seen members : Nat)
  | allowed (parent : Nat)
  | allocated (parent child : Nat)
  /-- The commit has looked up whose quota it is. -/
  | rooted (parent child : Nat) (rootPid : Pid)
  | locked (parent child : Nat) (rootPid : Pid)
  | joined (parent child : Nat) (rootPid : Pid)
  | counting (parent child root : Nat) (rootPid : Pid) (capacity seen members : Nat)
  | committed (parent child : Nat)
  deriving DecidableEq

/-- The process that is busy making a child. -/
def Phase.parent? : Phase → Option Nat
  | user => none
  | checking parent .. | allowed parent | allocated parent _ | rooted parent .. | locked parent ..
  | joined parent .. | counting parent .. | committed parent _ => some parent

/-- The slot a child is made in. -/
def Phase.child? : Phase → Option Nat
  | user | checking .. | allowed _ => none
  | allocated _ child | rooted _ child _ | locked _ child _ | joined _ child _
  | counting _ child .. | committed _ child => some child

/-- The limits that were once in force on a process or on the one it comes from, and the quotas it
was counted against. -/
structure Past where
  limits : List RlimitState := []
  quotas : List Pid := []

/-- The process table, which grows, the lock, and what each CPU is in the middle of. -/
structure System (cpus : Nat) where
  table : Nat → Process := fun _ => {}
  capacity : Nat := processTableChunkSize
  nextPid : Pid := 1
  phase : Fin cpus → Phase := fun _ => .user
  spawnCommitLock : Option (Fin cpus) := none
  past : Nat → Past := fun _ => {}

/-- Something happens: the kernel starts a process of its own, a process logs in, exits or is
reaped, sets limits, begins to make a child by `fork` or `exec`, or asks for one by `SYS_SPAWN`; and
a CPU that is making one goes on, or gives up. -/
inductive Action (cpus : Nat) where
  | boot (uid : UInt32)
  | identify (slot : Nat) (uid : UInt32)
  | exit (slot : Nat)
  | reap (slot : Nat)
  | set (caller : Nat) (pid : Pid) (request : Request)
  | spawn (cpu : Fin cpus) (parent : Nat)
  | task (cpu : Fin cpus) (parent : Nat)
  | go (cpu : Fin cpus)
  | fail (cpu : Fin cpus)

namespace System

variable {cpus : Nat} (sys : System cpus)

variable (slot : Nat)

def setRl (rl : RlimitState) : System cpus :=
  { sys with table := Function.update sys.table slot { sys.table slot with rl := rl } }

def setState (state : ProcessState) : System cpus :=
  { sys with table := Function.update sys.table slot { sys.table slot with state := state } }

def setUid (uid : UInt32) : System cpus :=
  { sys with table := Function.update sys.table slot { sys.table slot with uid := uid } }

def enter (cpu : Fin cpus) (phase : Phase) : System cpus :=
  { sys with phase := Function.update sys.phase cpu phase }

/-- The live process with a number (`process_find_live`). -/
def processFindLive (pid : Pid) : Option Nat :=
  (List.range sys.capacity).find? fun i =>
    decide ((sys.table i).pid = pid) && (sys.table i).isLive

/-- Whether a slot counts against the quota of a process. -/
def member (rootPid : Pid) (slot : Nat) : Bool :=
  (sys.table slot).isLive && decide ((sys.table slot).rl.quotaRoot = rootPid)

/-- The first unused slot; behind the last one the table grows by a chunk, as long as it may. -/
def freeSlot? : Option (Nat × Nat) :=
  match (List.range sys.capacity).find? fun i => decide ((sys.table i).state = .unused) with
  | some i => some (i, sys.capacity)
  | none =>
    if sys.capacity + processTableChunkSize ≤ processTableChunkSize * processTableMaxChunks then
      some (sys.capacity, sys.capacity + processTableChunkSize)
    else none

/-- Claims a slot for a process with a new number and no limits (`allocate_slot`). -/
def claim (capacity : Nat) : System cpus :=
  { sys with
    table := Function.update sys.table slot
      { sys.table slot with pid := sys.nextPid, state := .allocating, rl := rlReset }
    capacity := capacity
    nextPid := sys.nextPid + 1
    past := Function.update sys.past slot { limits := [rlReset] } }

/-- The child takes over the limits of its parent, and with them their past. -/
def inherit (parent child : Nat) : System cpus :=
  let rl := (sys.table parent).rl.rlInherit (sys.table parent).pid
  { sys.setRl child rl with
    past := Function.update sys.past child
      { limits := (sys.past parent).limits
        quotas :=
          if rl.quotaRoot = 0 then (sys.past parent).quotas
          else rl.quotaRoot :: (sys.past parent).quotas } }

/-- The beginning of a fork or spawn: the early check of the quota (`rlimit_may_spawn`). -/
def rlimitMaySpawn (cpu : Fin cpus) (parent : Nat) : System cpus :=
  let rootPid := (sys.table parent).rl.rlChildQuotaRoot (sys.table parent).pid
  if rootPid = 0 then sys.enter cpu (.allowed parent)
  else
    match sys.processFindLive rootPid with
    | none => sys.enter cpu (.allowed parent)
    | some root => sys.enter cpu (.checking parent root rootPid sys.capacity 0 0)

/-- A child by `SYS_SPAWN` (`handle_spawn`): it runs as root, and nobody asks for the limits and the
quota of its parent. Its past is still its parent's. -/
def task (cpu : Fin cpus) (parent : Nat) : System cpus :=
  match sys.freeSlot? with
  | none => sys
  | some (child, capacity) =>
    { (sys.claim child capacity).setUid child 0 with
      past := Function.update sys.past child (sys.past parent) }.enter cpu (.committed parent child)

/-- One more step of a CPU that makes a child. -/
def advance (cpu : Fin cpus) : System cpus :=
  match sys.phase cpu with
  | .user => sys
  | .checking parent root rootPid capacity seen members =>
    if seen < capacity then
      sys.enter cpu (.checking parent root rootPid capacity (seen + 1)
        (members + (sys.member rootPid seen).toNat))
    else if (sys.table root).rl.rlSpawnAllowed (.ofNat members) then sys.enter cpu (.allowed parent)
    else sys.enter cpu .user
  | .allowed parent =>
    match sys.freeSlot? with
    | none => sys.enter cpu .user
    | some (child, capacity) => (sys.claim child capacity).enter cpu (.allocated parent child)
  | .allocated parent child =>
    (sys.setUid child (sys.table parent).uid).enter cpu (.rooted parent child
      ((sys.table parent).rl.rlChildQuotaRoot (sys.table parent).pid))
  | .rooted parent child rootPid =>
    if rootPid = 0 then (sys.inherit parent child).enter cpu (.committed parent child)
    else
      match sys.spawnCommitLock with
      -- Another CPU has the lock: this one spins.
      | some _ => sys
      | none => { sys.enter cpu (.locked parent child rootPid) with spawnCommitLock := some cpu }
  | .locked parent child rootPid =>
    (sys.inherit parent child).enter cpu (.joined parent child rootPid)
  | .joined parent child rootPid =>
    match sys.processFindLive rootPid with
    | none => { sys.enter cpu (.committed parent child) with spawnCommitLock := none }
    | some root => sys.enter cpu (.counting parent child root rootPid sys.capacity 0 0)
  | .counting parent child root rootPid capacity seen members =>
    if seen < capacity then
      sys.enter cpu (.counting parent child root rootPid capacity (seen + 1)
        (members + (sys.member rootPid seen).toNat))
    else if (sys.table root).rl.rlSpawnAllowed (.ofNat members - 1) then
      { sys.enter cpu (.committed parent child) with spawnCommitLock := none }
    else
      -- Too late: the child is given up and must not count.
      { (sys.setRl child { (sys.table child).rl with quotaRoot := 0 }).enter cpu .user with
        spawnCommitLock := none }
  | .committed _ child => (sys.setState child .published).enter cpu .user

/-- A CPU gives up for want of memory, before the quota is asked again or after it has agreed. What
was claimed stays claimed. -/
def giveUp (cpu : Fin cpus) : System cpus :=
  match sys.phase cpu with
  | .allowed _ | .allocated .. | .committed .. => sys.enter cpu .user
  | _ => sys

/-- A request for other limits: the answer, and the slot it is about. A caller that is not root is
told nothing about others (`rlimit_sys`). -/
def rlimitSys (caller : Nat) (pid : Pid) (request : Request) : Int × Option Nat :=
  let targetPid := if pid = 0 then (sys.table caller).pid else pid
  let self : Bool := targetPid = (sys.table caller).pid
  if !self ∧ (sys.table caller).uid ≠ 0 then (-1, none)
  else
    match if self then some caller else sys.processFindLive targetPid with
    | none => (-3, none)
    | some target =>
      let answer := (sys.table target).rl.rlCheckSet (sys.table caller).uid self request
      if answer ≠ 0 then (answer, none) else (0, some target)

/-- Whether a process is in the middle of making a child. -/
def busy : Bool :=
  (List.finRange cpus).any fun cpu => (sys.phase cpu).parent? == some slot

/-- A process that can do something of its own accord. -/
def free : Bool :=
  decide ((sys.table slot).state = .published) && !sys.busy slot

/-- The kernel starts a process that has no parent. -/
def start (uid : UInt32) : System cpus :=
  match sys.freeSlot? with
  | none => sys
  | some (slot, capacity) => ((sys.claim slot capacity).setUid slot uid).setState slot .published

/-- New limits are from here on among those that were once in force. -/
def setLimits (rl : RlimitState) : System cpus :=
  { sys.setRl slot rl with
    past := Function.update sys.past slot
      { sys.past slot with limits := rl :: (sys.past slot).limits } }

def step : Action cpus → System cpus
  | .boot uid => sys.start uid
  | .identify slot uid => if sys.free slot then sys.setUid slot uid else sys
  | .exit slot => if sys.free slot then sys.setState slot .terminated else sys
  | .reap slot =>
    if (sys.table slot).state = .terminated then sys.setState slot .unused else sys
  | .set caller pid request =>
    if sys.free caller then
      match (sys.rlimitSys caller pid request).2 with
      | none => sys
      | some target => sys.setLimits target ((sys.table target).rl.rlApplySet request)
    else sys
  | .spawn cpu parent =>
    if sys.phase cpu = .user ∧ sys.free parent then sys.rlimitMaySpawn cpu parent else sys
  | .task cpu parent =>
    if sys.phase cpu = .user ∧ sys.free parent then sys.task cpu parent else sys
  | .go cpu => sys.advance cpu
  | .fail cpu => sys.giveUp cpu

def run (actions : List (Action cpus)) : System cpus :=
  actions.foldl step sys

/-- Whenever an action of a run is taken, something holds of it. -/
def Along (holds : System cpus → Action cpus → Prop) : System cpus → List (Action cpus) → Prop
  | _, [] => True
  | sys, action :: rest => holds sys action ∧ Along holds (sys.step action) rest

instance decidableAlong (holds : System cpus → Action cpus → Prop)
    [∀ sys action, Decidable (holds sys action)] : (sys : System cpus) →
    (actions : List (Action cpus)) → Decidable (Along holds sys actions)
  | _, [] => isTrue trivial
  | sys, action :: rest =>
    have := decidableAlong holds (sys.step action) rest
    inferInstanceAs (Decidable (holds sys action ∧ Along holds (sys.step action) rest))

end System

end NovaOs.Limits
