import NovaOs.Shm.Model

/-! Processes that come, share memory and go, over one shared-memory table. -/

namespace NovaOs

/-- The table together with what it reaches outside itself. -/
structure ShmSystem where
  shm : Shm
  hal : Hal

/-- Everything that can happen to the table. -/
inductive ShmOp where
  -- A process that was not forked starts.
  | spawn (pid : Pid)
  | create (pid : Pid) (size : Nat) (flags : UInt32)
  | grant (caller : Pid) (handle : UInt32) (target : Pid) (rights : UInt32)
  | map (pid : Pid) (handle want : UInt32)
  | unmap (pid : Pid) (addr : Nat)
  | destroy (pid : Pid) (handle : UInt32)
  | processExit (pid : Pid)
  | fork (parent child : Pid)

namespace Hal

/-- A process starts with nothing mapped in the region. -/
def startProcess (hal : Hal) (pid : Pid) : Hal :=
  { hal with live := Function.update hal.live pid true }

/-- A process that has gone has no page table. -/
def endProcess (hal : Hal) (pid : Pid) : Hal :=
  { hal with
    live := Function.update hal.live pid false
    pageTable := Function.update hal.pageTable pid fun _ => none }

/-- Copies the shared entries of a page table as they are, unless memory runs out. -/
def shareAddressSpace (hal : Hal) (parent child : Pid) : Bool × Hal :=
  let later := { hal with mapFaults := fun n => hal.mapFaults (n + 1) }
  if hal.mapFaults 0 then (false, later)
  else (true, { later with
    pageTable := Function.update hal.pageTable child (hal.pageTable parent) })

end Hal

namespace ShmSystem

/-- Starts with an empty table and nothing mapped; processes may already be running. -/
def boot (hal : Hal) : ShmSystem where
  shm := .new
  hal := { hal with
    allocated := fun _ => false
    misfreed := false
    pageTable := fun _ _ => none }

/-- A fork: the page table is copied, the records follow, and a failure undoes both. -/
def fork (system : ShmSystem) (parent child : Pid) : ShmSystem :=
  match system.hal.shareAddressSpace parent child with
  | (false, hal) => { system with hal := hal }
  | (true, hal) =>
    match system.shm.fork parent child with
    | (.error _, shm) => { shm := shm, hal := hal.endProcess child }
    | (.ok (), shm) => { shm := shm, hal := hal.startProcess child }

/-- One operation; only a running process makes a call, and only an unused pid is given out. -/
def step (system : ShmSystem) : ShmOp → ShmSystem
  | .spawn pid =>
    if system.hal.live pid then system else { system with hal := system.hal.startProcess pid }
  | .create pid size flags =>
    if system.hal.live pid then
      let (_, shm, hal) := system.shm.create system.hal pid size flags
      { shm := shm, hal := hal }
    else system
  | .grant caller handle target rights =>
    if system.hal.live caller then
      { system with shm := (system.shm.grant system.hal caller handle target rights).2 }
    else system
  | .map pid handle want =>
    if system.hal.live pid then
      let (_, shm, hal) := system.shm.map system.hal pid handle want
      { shm := shm, hal := hal }
    else system
  | .unmap pid addr =>
    if system.hal.live pid then
      let (_, shm, hal) := system.shm.unmap system.hal pid addr
      { shm := shm, hal := hal }
    else system
  | .destroy pid handle =>
    if system.hal.live pid then
      let (_, shm, hal) := system.shm.destroy system.hal pid handle
      { shm := shm, hal := hal }
    else system
  | .processExit pid =>
    if system.hal.live pid then
      let (shm, hal) := system.shm.processExit system.hal pid
      { shm := shm, hal := hal.endProcess pid }
    else system
  | .fork parent child =>
    if system.hal.live parent && !system.hal.live child then system.fork parent child else system

/-- A whole history of operations, oldest first. -/
def run (system : ShmSystem) (ops : List ShmOp) : ShmSystem := ops.foldl step system

end ShmSystem

end NovaOs
